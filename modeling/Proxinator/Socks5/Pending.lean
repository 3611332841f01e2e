import Proxinator.Socks5.Handshake

/-!
# Messages that arrive while `authenticate` is pending

A client sends its next handshake message once it has the reply to the last one. The server
must not let it arrive on a flowing socket without a `data` listener, where it is lost. In
the no-auth branch the reply is written before `authenticate` is asked and the listener is
only attached when it has approved, so this branch is unsafe whenever `authenticate` was
given; it is the only one (`pending_safe_iff`).
-/

namespace Proxinator.Socks5

open Lib

/-- The replies that let the client continue with its next handshake message. -/
def continuing : List Bytes :=
  [[socksVersion, authNone], [socksVersion, authUserpass], [0x01, 0x00]]

/-- Whether it is the client's turn after an action. -/
def turn (before : Bool) : Action → Bool
  | .received _ | .lost _ => false
  | .wrote data => before || decide (data ∈ continuing)
  | _ => before

/-- It is the client's turn: it has not sent anything yet, or has the reply that lets it
continue. -/
def clientTurn (log : List Action) : Bool := log.foldl turn true

theorem clientTurn_append (log extra : List Action) :
    clientTurn (log ++ extra) = extra.foldl turn (clientTurn log) :=
  List.foldl_append

namespace Socket

/-- No message of the client has been lost, nor would the next one be. -/
structure Safe (s : Socket) : Prop where
  heard : clientTurn s.log = true → s.dataListeners ≠ [] ∨ s.paused = true
  none_lost : ∀ chunk, .lost chunk ∉ s.log

/-- The client sends each handshake message as one chunk and only when it is its turn; a
destroyed socket emits no data. -/
def Disciplined (s : Socket) : Event → Prop
  | .data _ _ => clientTurn s.log = true ∧ s.destroyed = false
  | _ => True

/-- The event makes the server take the no-auth branch while `authenticate` was given. -/
def DefersRequest (opts : Options) (s : Socket) (e : Event) : Prop :=
  opts.authenticate = true ∧ .greeting ∈ s.dataListeners ∧
    ∃ chunk answer, e = .data chunk answer ∧ choose chunk = .noAuth

variable {opts : Options} {s : Socket}

/-- A socket that stays deaf was not the client's turn before, -/
theorem Safe.turn_eq_false (h : s.Safe) (hflowing : s.paused = false)
    (hlisteners : s.dataListeners = []) : clientTurn s.log = false := by
  by_contra hturn
  rcases h.heard (by simpa using hturn) with hne | hpaused
  · exact hne hlisteners
  · rw [hflowing] at hpaused
    cases hpaused

/-- A step whose actions leave it to the server to reply is safe, -/
theorem Safe.of_turn {s' : Socket} (h : s.Safe) (extra : List Action)
    (hlog : s'.log = s.log ++ extra) (hturn : extra.foldl turn (clientTurn s.log) = false)
    (hextra : ∀ chunk, .lost chunk ∉ extra) : s'.Safe := by
  constructor
  · intro hclient
    rw [hlog, clientTurn_append, hturn] at hclient
    cases hclient
  · intro chunk hmem
    rw [hlog] at hmem
    exact (List.mem_append.mp hmem).elim (h.none_lost chunk) (hextra chunk)

/-- and so is one after which a listener is attached. -/
theorem Safe.of_listener {s' : Socket} (h : s.Safe) (extra : List Action)
    (hlog : s'.log = s.log ++ extra) (hlisteners : s'.dataListeners ≠ [])
    (hextra : ∀ chunk, .lost chunk ∉ extra) : s'.Safe := by
  constructor
  · intro _
    exact Or.inl hlisteners
  · intro chunk hmem
    rw [hlog] at hmem
    exact (List.mem_append.mp hmem).elim (h.none_lost chunk) (hextra chunk)

/-- A step that writes nothing keeps the socket safe if it keeps the listeners. -/
theorem Safe.of_idle {s' : Socket} (h : s.Safe) (extra : List Action)
    (hlog : s'.log = s.log ++ extra)
    (hturn : ∀ before, extra.foldl turn before = before)
    (hlisteners : ∀ listener ∈ s.dataListeners, listener ∈ s'.dataListeners)
    (hpaused : s.paused = false) (hextra : ∀ chunk, .lost chunk ∉ extra) : s'.Safe := by
  by_cases hnil : s.dataListeners = []
  · exact h.of_turn extra hlog ((hturn _).trans (h.turn_eq_false hpaused hnil)) hextra
  · obtain ⟨listener, hl⟩ := List.exists_mem_of_ne_nil _ hnil
    exact h.of_listener extra hlog (List.ne_nil_of_mem (hlisteners listener hl)) hextra

theorem Safe.quiet {s' : Socket} (h : s.Safe) (hpaused : s.paused = false) (hq : Quiet s s') :
    s'.Safe := by
  obtain ⟨extra, hlog, hextra⟩ := hq.log_eq
  refine h.of_idle extra hlog (fun before => ?_) (by simp [hq.dataListeners_eq]) hpaused
    fun chunk hmem => ?_
  · clear hlog
    induction extra with
    | nil => rfl
    | cons action extra ih =>
        have hturn : turn before action = before := by
          rcases hextra action List.mem_cons_self with rfl | ⟨code, connection, rfl⟩ <;> rfl
        rw [List.foldl_cons, hturn]
        exact ih fun a ha => hextra a (List.mem_cons_of_mem _ ha)
  · rcases hextra _ hmem with heq | ⟨code, connection, heq⟩ <;> cases heq

/-! ## One step -/

/-- The greeting is safe in every branch but the no-auth one with `authenticate`. -/
theorem safe_greeting_iff (answer : AuthInfo → Answer) (g : Bytes) (h : s.Safe)
    (hpaused : s.paused = false) (hlisteners : s.dataListeners = [.greeting]) :
    (s.onData opts answer g).Safe ↔ ¬ (opts.authenticate = true ∧ choose g = .noAuth) := by
  rw [onData_eq answer g hlisteners, callListener, onGreeting_eq]
  cases hg : choose g with
  | badVersion =>
      refine iff_of_true (h.of_turn [.received g, .ended] ?_ rfl (by simp)) (by simp)
      simp [afterHandlers, endSocket, act]
  | userpass =>
      refine iff_of_true (h.of_listener
        [.received g, .wrote [socksVersion, authUserpass]] ?_ ?_ (by simp)) (by simp)
      · simp [afterHandlers, write, onceData, act]
      · simp [afterHandlers, onceData]
  | noAcceptable =>
      refine iff_of_true (h.of_turn
        [.received g, .wrote [socksVersion, authNoAcceptable], .ended] ?_ ?_
        (by simp)) (by simp)
      · simp [afterHandlers, write, endSocket, act]
      · simp [turn, continuing]
  | noAuth =>
      cases hopts : opts.authenticate with
      | false =>
          refine iff_of_true (h.of_listener
            [.received g, .wrote [socksVersion, authNone]] ?_ ?_ (by simp)) (by simp)
          · simp [afterHandlers, write, onceData, handleRequest, resume, act]
          · simp [afterHandlers, onceData, handleRequest, resume]
      | true =>
          refine iff_of_false (fun hsafe => ?_) (by simp)
          have hdeaf := hsafe.turn_eq_false
          cases hanswer : answer (authInfo none (socketInfo s.endpoints)) <;>
            simp [afterHandlers, authenticate, hanswer, write, act, hlisteners, hpaused,
              clientTurn_append, turn, continuing] at hdeaf

theorem safe_auth (answer : AuthInfo → Answer) (a : Bytes) (h : s.Safe) {info : SocketInfo}
    (hlisteners : s.dataListeners = [.auth info]) : (s.onData opts answer a).Safe := by
  rw [onData_eq answer a hlisteners, callListener, onAuth]
  cases ha : parseAuth a with
  | none =>
      refine h.of_turn [.received a, .wrote [0x01, 0x01], .ended] ?_ ?_ (by simp)
      · simp [afterHandlers, write, endSocket, act]
      · simp [turn, continuing]
  | some credentials =>
      simp only [authenticate]
      split_ifs
      · split
        · refine h.of_turn
            [.received a, .authenticate (authInfo (some credentials) info), .uncaught]
            ?_ rfl (by simp)
          simp [afterHandlers, act]
        · refine h.of_turn
            [.received a, .authenticate (authInfo (some credentials) info)]
            ?_ rfl (by simp)
          simp [afterHandlers, act]
      · exact h.of_turn [.received a] rfl rfl (by simp)

theorem safe_request (answer : AuthInfo → Answer) (r : Bytes) (h : s.Safe)
    (hlisteners : s.dataListeners = [.request]) : (s.onData opts answer r).Safe := by
  rw [onData_eq answer r hlisteners, callListener, onRequest]
  split_ifs
  · refine h.of_turn [.received r, .wrote (buildReply 0x07), .ended] ?_ ?_ (by simp)
    · simp [afterHandlers, write, endSocket, act]
    · simp [turn, continuing, buildReply]
  · split
    · refine h.of_turn [.received r, .wrote (buildReply 0x01), .ended] ?_ ?_ (by simp)
      · simp [afterHandlers, write, endSocket, act]
      · simp [turn, continuing, buildReply]
    · rename_i address haddress
      refine h.of_turn [.received r, .connection address] ?_ rfl (by simp)
      simp [afterHandlers, promote, act]

/-- A settlement attaches the next listener or refuses a client whose turn it was not. -/
theorem safe_onSettled {check : Check} {result : Settlement} (h : s.Safe)
    (hturn : clientTurn s.log = false) : (s.onSettled check result).Safe := by
  rw [onSettled.eq_def]
  split
  · refine h.of_listener [.wrote [0x01, 0x00]] ?_ ?_ (by simp)
    · simp [handleRequest, onceData, resume, write, act]
    · simp [handleRequest, onceData, resume]
  · refine h.of_listener [] ?_ ?_ (by simp)
    · simp [handleRequest, onceData, resume]
    · simp [handleRequest, onceData, resume]
  · refine h.of_turn [.wrote [0x01, 0x01], .ended] ?_ ?_ (by simp)
    · simp [write, endSocket, act]
    · simp [hturn, turn, continuing]
  · exact h.of_turn [.ended] rfl hturn (by simp)
  · refine h.of_turn [.error none false, .ended] ?_ hturn (by simp)
    simp [endSocket, act]

theorem safe_settle (i : ℕ) (result : Settlement) (h : s.Safe) (hs : s.Inv opts) :
    (s.onSettle i result).Safe := by
  rw [onSettle]
  cases hcheck : s.checks[i]? with
  | none => exact h
  | some check =>
      rcases hs.stage with ⟨-, hprogress⟩ | ⟨address, hp⟩
      · have hturn := h.turn_eq_false hs.flowing (progress_check hprogress hcheck).1
        by_cases hasked : check.asked = true
        · simp only [hasked, if_true]
          have hsettled : ({ s with checks := s.checks.eraseIdx i }.act (.settled result)).Safe :=
            h.of_turn [.settled result] rfl hturn (by simp)
          refine safe_onSettled hsettled ?_
          simpa [act, clientTurn_append, turn] using hturn
        · simp only [hasked, Bool.false_eq_true, if_false]
          exact safe_onSettled ⟨h.heard, h.none_lost⟩ hturn
      · rw [hp.checks_eq] at hcheck
        cases hcheck

/-- The data of a disciplined client. -/
theorem safe_data_iff (answer : AuthInfo → Answer) (chunk : Bytes) (h : s.Safe) (hs : s.Inv opts)
    (hturn : clientTurn s.log = true) :
    (s.onData opts answer chunk).Safe ↔
      ¬ DefersRequest opts s (.data chunk answer) := by
  have hne : s.dataListeners ≠ [] := by
    intro hnil
    have := h.turn_eq_false hs.flowing hnil
    rw [hturn] at this
    cases this
  have hother : .greeting ∉ s.dataListeners → ¬ DefersRequest opts s (.data chunk answer) :=
    fun hmem hdefers => hmem hdefers.2.1
  rcases hs.stage with ⟨-, hprogress⟩ | ⟨address, hp⟩
  · generalize hlisteners : s.dataListeners = listeners at hprogress hne
    generalize s.checks = checks at hprogress
    generalize s.auth = auth at hprogress
    generalize transcript s.log = t at hprogress
    cases hprogress with
    | greeting =>
        rw [safe_greeting_iff answer chunk h hs.flowing hlisteners]
        simp [DefersRequest, hlisteners]
    | auth =>
        exact iff_of_true (safe_auth answer chunk h hlisteners) (hother (by simp [hlisteners]))
    | request =>
        exact iff_of_true (safe_request answer chunk h hlisteners)
          (hother (by simp [hlisteners]))
    | checking | checkingNoAuth | refused => exact absurd rfl hne
  · refine iff_of_true ?_ (hother fun hmem => by cases hp.listeners_eq _ hmem)
    rw [onData_pipe answer chunk hp.listeners_eq hne]
    exact h.of_listener
      (.received chunk :: List.replicate s.dataListeners.length (.piped chunk)) rfl hne (by simp)

/-- No event but data makes a socket unsafe. -/
theorem safe_other {e : Event} (he : ∀ chunk answer, e ≠ .data chunk answer) (hs : s.Inv opts)
    (h : s.Safe) : (s.step opts e).Safe := by
  cases e with
  | data chunk answer => exact absurd rfl (he chunk answer)
  | settle i result => exact safe_settle i result h hs
  | handshakeTimeout =>
      rw [step]
      split_ifs
      · exact ⟨h.heard, h.none_lost⟩
      · exact h
  | error code =>
      rw [step]
      split_ifs
      · exact h
      · exact h.quiet hs.flowing (Quiet.onError code (List.ne_nil_of_mem hs.guarded))
  | close =>
      rw [step]
      split_ifs
      · exact h
      · exact h.quiet hs.flowing (Quiet.onClose s)
  | bind =>
      rw [step]
      split_ifs
      · exact h
      · exact h.of_listener [.wrote (buildReply 0x00)] rfl (by simp [bind]) (by simp)
  | refuse =>
      rw [step]
      split_ifs
      · exact h
      · refine h.of_idle [.wrote (buildReply 0x01), .ended] ?_ ?_ (fun _ => id) hs.flowing
          (by simp)
        · simp [write, endSocket, act]
        · simp [turn, continuing, buildReply]
  | «end» =>
      rw [step]
      split_ifs
      · exact h
      · exact h.of_idle [.ended] rfl (fun _ => rfl) (fun _ => id) hs.flowing (by simp)
  | destroy => exact ⟨h.heard, h.none_lost⟩

/-- **A step of a disciplined client keeps the socket safe exactly if it does not defer the
request.** -/
theorem safe_step_iff {e : Event} (hd : s.Disciplined e) (hs : s.Inv opts) (h : s.Safe) :
    (s.step opts e).Safe ↔ ¬ DefersRequest opts s e := by
  by_cases hdata : ∃ chunk answer, e = .data chunk answer
  · obtain ⟨chunk, answer, rfl⟩ := hdata
    rw [step, hs.flowing, hd.2]
    exact safe_data_iff answer chunk h hs hd.1
  · push Not at hdata
    refine iff_of_true (safe_other hdata hs h) ?_
    rintro ⟨-, -, chunk, answer, heq, -⟩
    exact hdata chunk answer heq

/-! ## Runs -/

/-- **No handshake message is lost over a run of a disciplined client exactly if the server
never takes the no-auth branch while `authenticate` was given.** -/
theorem pending_safe_iff (opts : Options) (endpoints : SocketInfo) (events : List Event)
    (h : Along (step opts) Disciplined (accepted endpoints) events) :
    Throughout (step opts) Safe (accepted endpoints) events ↔
      Along (step opts) (fun s e => ¬ DefersRequest opts s e) (accepted endpoints) events :=
  throughout_iff_along (Q := Inv opts) h (inv_accepted opts endpoints)
    ⟨fun _ => Or.inl (by simp [accepted]), by simp [accepted]⟩
    (fun _ _ hd hs h => safe_step_iff hd hs h) (fun _ _ _ hs _ _ => inv_step hs)

/-! ## Two runs -/

private def someClient : SocketInfo := ⟨some "10.0.0.1", some 4001, some "10.0.0.9", some 1080⟩

private def connectRequest : Bytes := [5, 1, 0, 1, 127, 0, 0, 1, 0, 80]

theorem pending_safe_userpass :
    Throughout (step ⟨true⟩) Safe (accepted someClient)
      [.data [5, 2, 0, 2] fun _ => .returns, .data [1, 1, 0x75, 1, 0x70] fun _ => .returns,
        .settle 0 (.fulfilled true), .data connectRequest fun _ => .returns] := by
  refine (pending_safe_iff ⟨true⟩ someClient _ ?_).mpr ?_
  · simp only [along_cons, along_nil, and_true]
    exact ⟨⟨rfl, rfl⟩, ⟨by decide +kernel, by decide +kernel⟩, trivial, by decide +kernel,
      by decide +kernel⟩
  · simp only [along_cons, along_nil, and_true]
    refine ⟨?_, fun h => absurd h.2.1 (by decide +kernel), ?_,
      fun h => absurd h.2.1 (by decide +kernel)⟩
    · rintro ⟨-, -, chunk, answer, heq, hchoose⟩
      cases heq
      exact absurd hchoose (by decide)
    · rintro ⟨-, -, chunk, answer, heq, -⟩
      cases heq

/-- **A request that arrives while `authenticate` is pending is lost**, also if the client is
approved afterwards. -/
theorem pending_request_lost :
    let events : List Event :=
      [.data [5, 1, 0] fun _ => .returns, .data connectRequest fun _ => .returns,
        .settle 0 (.fulfilled true)]
    let s := run (step ⟨true⟩) (accepted someClient) events
    Along (step ⟨true⟩) Disciplined (accepted someClient) events ∧
      ¬ Throughout (step ⟨true⟩) Safe (accepted someClient) events ∧
      .lost connectRequest ∈ s.log ∧ s.promoted = [] := by
  intro events s
  have hlost : .lost connectRequest ∈ s.log := by decide
  refine ⟨?_, fun h => h.last.none_lost _ hlost, hlost, by decide⟩
  simp only [events, along_cons, along_nil, and_true]
  exact ⟨⟨rfl, rfl⟩, ⟨by decide, by decide⟩, trivial⟩

end Socket

end Proxinator.Socks5
