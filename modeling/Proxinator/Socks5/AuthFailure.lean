import Proxinator.Socks5.Handshake

/-!
# When `authenticate` fails

A call of `authenticate` fails when what it returns is falsy or settles to something falsy, when
its promise is rejected, and when it throws. The handlers of the promise take care of the first
three. What is thrown is thrown before there is a promise, from the `data` handler:
`endsCleanly_iff` says that this, in either branch of the handshake, is the only failure that
does not end the client cleanly.

`Refused` is the invariant of a client that has been ended: nothing listens to its data, so
nothing makes a connection of it.
-/

namespace Proxinator.Socks5

open Lib

/-- How a call of `authenticate` fails. -/
inductive Failure
  /-- It returns a falsy value, or a promise that is fulfilled with one. -/
  | falsy
  /-- It returns a promise that is rejected. -/
  | rejected
  /-- It throws. -/
  | thrown
  deriving DecidableEq, Repr

/-- `error` was emitted. -/
def Action.isError : Action → Bool
  | .error _ _ => true
  | _ => false

namespace Socket

/-- What the server does on an event. -/
def added (opts : Options) (s : Socket) (e : Event) : List Action :=
  (s.step opts e).log.drop s.log.length

/-- The event is a failure of `authenticate`: a promise that was waited for settles, or a chunk
makes the server call it and it throws. -/
inductive Fails (opts : Options) (s : Socket) : Event → Failure → Prop
  | falsy (i : ℕ) (check : Check) (hcheck : s.checks[i]? = some check)
      (hasked : check.asked = true) : Fails opts s (.settle i (.fulfilled false)) .falsy
  | rejected (i : ℕ) (check : Check) (hcheck : s.checks[i]? = some check)
      (hasked : check.asked = true) : Fails opts s (.settle i .rejected) .rejected
  | thrown (chunk : Bytes) (answer : AuthInfo → Answer) (info : AuthInfo)
      (hcall : .authenticate info ∈ added opts s (.data chunk answer))
      (hthrows : answer info = .throws) : Fails opts s (.data chunk answer) .thrown

/-- **The failure ends the client cleanly.** -/
structure EndsCleanly (opts : Options) (s : Socket) (e : Event) (failure : Failure) : Prop where
  no_exception : .uncaught ∉ added opts s e
  ended : .ended ∈ added opts s e
  reported : (added opts s e).countP Action.isError = if failure = .falsy then 0 else 1
  no_connection : ∀ events address,
    .connection address ∉ (run (step opts) s (e :: events)).log

variable {opts : Options} {s : Socket}

theorem added_eq {e : Event} {extra : List Action} (h : (s.step opts e).log = s.log ++ extra) :
    added opts s e = extra := by
  rw [added, h, List.drop_left]

/-! ## A client that is refused -/

/-- Nothing makes a connection of this client. -/
structure Refused (s : Socket) : Prop where
  promoted : s.promoted = []
  listeners : s.dataListeners = []
  checks : s.checks = []
  none : ∀ address, .connection address ∉ s.log

theorem Refused.quiet {s' : Socket} (hs : s.Refused) (h : Quiet s s') : s'.Refused where
  promoted := h.promoted_eq.trans hs.promoted
  listeners := h.dataListeners_eq.trans hs.listeners
  checks := h.checks_eq.trans hs.checks
  none address hmem := by
    obtain ⟨extra, hlog, hextra⟩ := h.log_eq
    rw [hlog] at hmem
    rcases List.mem_append.mp hmem with hmem | hmem
    · exact hs.none address hmem
    · rcases hextra _ hmem with heq | ⟨code, connection, heq⟩ <;> cases heq

/-- **Every step keeps a refused client refused.** -/
theorem refused_step (e : Event) (hinv : s.Inv opts) (hs : s.Refused) :
    (s.step opts e).Refused := by
  cases e with
  | data chunk answer =>
      rw [step]
      split_ifs
      · exact hs
      · rw [onData, if_pos hs.listeners]
        refine ⟨hs.promoted, hs.listeners, hs.checks, fun address hmem => ?_⟩
        exact hs.none address (by simpa [act] using hmem)
  | settle i result =>
      rw [step, onSettle, hs.checks]
      exact hs
  | handshakeTimeout =>
      rw [step]
      split_ifs
      · exact ⟨hs.promoted, hs.listeners, hs.checks, hs.none⟩
      · exact hs
  | error code =>
      rw [step]
      split_ifs
      · exact hs
      · exact hs.quiet (Quiet.onError code (List.ne_nil_of_mem hinv.guarded))
  | close =>
      rw [step]
      split_ifs
      · exact hs
      · exact hs.quiet (Quiet.onClose s)
  | bind => rwa [step, if_pos hs.promoted]
  | refuse => rwa [step, if_pos hs.promoted]
  | «end» => rwa [step, if_pos hs.promoted]
  | destroy => exact ⟨hs.promoted, hs.listeners, hs.checks, hs.none⟩

theorem refused_run (events : List Event) (hinv : s.Inv opts) (hs : s.Refused) :
    (run (step opts) s events).Refused := by
  have hboth := run_invariant (P := fun s : Socket => s.Inv opts ∧ s.Refused)
    (fun s e h => ⟨inv_step h.1, refused_step e h.1 h.2⟩) ⟨hinv, hs⟩ events
  exact hboth.2

/-! ## A promise that fails -/

/-- The actions of a handler that refuses the client. -/
def refusal (check : Check) (result : Settlement) : List Action :=
  if result = .rejected then [.error none false, .ended]
  else if check.credentials.isSome then [.wrote [0x01, 0x01], .ended]
  else [.ended]

theorem onSettled_failure (s : Socket) (check : Check) {result : Settlement}
    (hresult : result ≠ .fulfilled true) :
    s.onSettled check result = { s with log := s.log ++ refusal check result } := by
  cases result with
  | fulfilled valid =>
      cases valid with
      | true => exact absurd rfl hresult
      | false =>
          cases hcredentials : check.credentials <;>
            simp [onSettled.eq_def, hcredentials, refusal, write, endSocket, act]
  | rejected => simp [onSettled.eq_def, refusal, endSocket, act]

/-- **What the server does when a promise fails.** -/
theorem settle_failure {i : ℕ} {check : Check} {result : Settlement} (hinv : s.Inv opts)
    (hcheck : s.checks[i]? = some check) (hasked : check.asked = true)
    (hresult : result ≠ .fulfilled true) :
    (s.step opts (.settle i result)).Refused ∧
      added opts s (.settle i result) = .settled result :: refusal check result := by
  have hstep : s.step opts (.settle i result) =
      { s with
        checks := s.checks.eraseIdx i
        log := s.log ++ .settled result :: refusal check result } := by
    rw [step, onSettle, hcheck]
    simp only [hasked, if_true]
    rw [onSettled_failure _ check hresult]
    simp [act]
  refine ⟨?_, added_eq (by rw [hstep])⟩
  rcases hinv.stage with ⟨hpromoted, hprogress⟩ | ⟨address, hp⟩
  · obtain ⟨hlisteners, hchecks, -, hnone, -⟩ := progress_check hprogress hcheck
    rw [hstep]
    refine ⟨hpromoted, hlisteners, hchecks, fun address hmem => ?_⟩
    have hextra : .connection address ∉ Action.settled result :: refusal check result := by
      rw [refusal]
      split_ifs <;> simp
    rcases List.mem_append.mp hmem with hmem | hmem
    · exact hnone address (connection_mem_transcript.mpr hmem)
    · exact hextra hmem
  · rw [hp.checks_eq] at hcheck
    cases hcheck

/-- The client is ended cleanly. -/
theorem endsCleanly_settle {i : ℕ} {check : Check} {result : Settlement} {failure : Failure}
    (hinv : s.Inv opts) (hcheck : s.checks[i]? = some check) (hasked : check.asked = true)
    (hresult : result ≠ .fulfilled true) (hfailure : failure = .falsy ↔ result ≠ .rejected) :
    EndsCleanly opts s (.settle i result) failure := by
  obtain ⟨hrefused, hadded⟩ := settle_failure hinv hcheck hasked hresult
  refine ⟨?_, ?_, ?_, fun events address => ?_⟩
  · rw [hadded, refusal]
    split_ifs <;> simp
  · rw [hadded, refusal]
    split_ifs <;> simp
  · rw [hadded, refusal]
    by_cases hrejected : result = .rejected
    · have hrejection : failure ≠ .falsy := fun hfalsy => hfailure.mp hfalsy hrejected
      rw [if_pos hrejected, if_neg hrejection]
      rfl
    · rw [if_neg hrejected, if_pos (hfailure.mpr hrejected)]
      split_ifs <;> rfl
  · rw [run_cons]
    exact (refused_run events (inv_step hinv) hrefused).none address

/-! ## A call that throws -/

/-- The action is no call of `authenticate` that throws. -/
def Returns (answer : AuthInfo → Answer) (action : Action) : Prop :=
  ∀ info, action = .authenticate info → answer info ≠ .throws

/-- What a handler does: where it calls `authenticate` and that throws, the handler throws. -/
def Passes (answer : AuthInfo → Answer) (s : Socket) : Except Socket Socket → Prop
  | .ok s' => ∃ extra, s'.log = s.log ++ extra ∧ ∀ action ∈ extra, Returns answer action
  | .error s' => s.log <+: s'.log

theorem passes_authenticate (s : Socket) (answer : AuthInfo → Answer)
    (credentials : Option Credentials) (info : AuthInfo) :
    Passes answer s (s.authenticate answer credentials info) := by
  rw [authenticate]
  cases hanswer : answer info with
  | throws => exact List.prefix_append _ _
  | returns =>
      refine ⟨[.authenticate info], rfl, ?_⟩
      simp [Returns, hanswer]

/-- A handler that does not call it. -/
theorem passes_of_log {answer : AuthInfo → Answer} {s' : Socket} (extra : List Action)
    (hlog : s'.log = s.log ++ extra) (hextra : ∀ info, .authenticate info ∉ extra) :
    Passes answer s (.ok s') := by
  refine ⟨extra, hlog, ?_⟩
  rintro action hmem info rfl
  exact absurd hmem (hextra info)

/-- Handlers in a row. -/
theorem Passes.trans {answer : AuthInfo → Answer} {s' : Socket} {r : Except Socket Socket}
    (h : Passes answer s (.ok s')) (h' : Passes answer s' r) : Passes answer s r := by
  cases r with
  | ok s'' => exact exists_append_trans h h'
  | error s'' =>
      obtain ⟨extra, hlog, -⟩ := h
      have hbefore : s.log <+: s'.log := hlog ▸ List.prefix_append _ _
      exact hbefore.trans h'

theorem passes_onGreeting (opts : Options) (answer : AuthInfo → Answer) (g : Bytes) (s : Socket) :
    Passes answer s (s.onGreeting opts answer g) := by
  rw [onGreeting_eq]
  cases choose g with
  | badVersion => exact passes_of_log [.ended] rfl (by simp)
  | userpass => exact passes_of_log [.wrote [socksVersion, authUserpass]] rfl (by simp)
  | noAuth =>
      have hwrote : Passes answer s (.ok (s.write [socksVersion, authNone])) :=
        passes_of_log [.wrote [socksVersion, authNone]] rfl (by simp)
      by_cases hopts : opts.authenticate = true
      · simp only [hopts, if_true]
        exact hwrote.trans (passes_authenticate _ _ _ _)
      · simp only [hopts, Bool.false_eq_true, if_false]
        exact hwrote.trans (passes_of_log [] (by simp [handleRequest, onceData, resume]) (by simp))
  | noAcceptable =>
      exact passes_of_log [.wrote [socksVersion, authNoAcceptable], .ended]
        (by simp [write, endSocket, act]) (by simp)

theorem passes_onAuth (opts : Options) (answer : AuthInfo → Answer) (info : SocketInfo) (a : Bytes)
    (s : Socket) :
    Passes answer s (s.onAuth opts answer info a) := by
  rw [onAuth]
  cases parseAuth a with
  | none =>
      exact passes_of_log [.wrote [0x01, 0x01], .ended] (by simp [write, endSocket, act]) (by simp)
  | some credentials =>
      by_cases hopts : opts.authenticate = true
      · simp only [hopts, if_true]
        exact passes_authenticate _ _ _ _
      · simp only [hopts, Bool.false_eq_true, if_false]
        exact passes_of_log [] (List.append_nil _).symm (by simp)

theorem passes_onRequest (answer : AuthInfo → Answer) (r : Bytes) (s : Socket) :
    Passes answer s (.ok (s.onRequest r)) := by
  rw [onRequest]
  split_ifs
  · exact passes_of_log [.wrote (buildReply 0x07), .ended] (by simp [write, endSocket, act])
      (by simp)
  · cases parseAddress r with
    | none =>
        exact passes_of_log [.wrote (buildReply 0x01), .ended] (by simp [write, endSocket, act])
          (by simp)
    | some address => exact passes_of_log [.connection address] rfl (by simp)

theorem passes_callListener (opts : Options) (answer : AuthInfo → Answer) (chunk : Bytes)
    (s : Socket) (listener : DataListener) :
    Passes answer s (s.callListener opts answer chunk listener) := by
  cases listener with
  | greeting => exact passes_onGreeting opts answer chunk { s with dataListeners := _ }
  | auth info => exact passes_onAuth opts answer info chunk { s with dataListeners := _ }
  | request => exact passes_onRequest answer chunk { s with dataListeners := _ }
  | pipe => exact passes_of_log [.piped chunk] rfl (by simp)

theorem passes_foldlM (opts : Options) (answer : AuthInfo → Answer) (chunk : Bytes)
    (listeners : List DataListener) (s : Socket) :
    Passes answer s (listeners.foldlM (callListener opts answer chunk) s) := by
  induction listeners generalizing s with
  | nil => exact passes_of_log [] (List.append_nil _).symm (by simp)
  | cons listener listeners ih =>
      rw [List.foldlM_cons]
      have hfirst := passes_callListener opts answer chunk s listener
      cases hcall : s.callListener opts answer chunk listener with
      | error s' =>
          rw [hcall] at hfirst
          exact hfirst
      | ok s' =>
          rw [hcall] at hfirst
          exact hfirst.trans (ih s')

/-- **A call that throws is not caught.** -/
theorem uncaught_of_throws {chunk : Bytes} {answer : AuthInfo → Answer} {info : AuthInfo}
    (hcall : .authenticate info ∈ added opts s (.data chunk answer))
    (hthrows : answer info = .throws) : .uncaught ∈ added opts s (.data chunk answer) := by
  by_cases hstopped : (s.paused || s.destroyed) = true
  · have hadded : added opts s (.data chunk answer) = [] :=
      added_eq (by rw [step, if_pos hstopped, List.append_nil])
    rw [hadded] at hcall
    cases hcall
  have hstep : s.step opts (.data chunk answer) = s.onData opts answer chunk := by
    rw [step, if_neg hstopped]
  by_cases hlisteners : s.dataListeners = []
  · have hadded : added opts s (.data chunk answer) = [.lost chunk] :=
      added_eq (by rw [hstep, onData, if_pos hlisteners]; rfl)
    rw [hadded] at hcall
    simp at hcall
  rw [onData, if_neg hlisteners] at hstep
  have hpasses := passes_foldlM opts answer chunk s.dataListeners (s.act (.received chunk))
  cases hhandlers : s.dataListeners.foldlM (callListener opts answer chunk)
      (s.act (.received chunk)) with
  | ok s' =>
      rw [hhandlers] at hstep hpasses
      obtain ⟨extra, hlog, hextra⟩ := hpasses
      have hadded : added opts s (.data chunk answer) = .received chunk :: extra :=
        added_eq (by rw [hstep, afterHandlers, hlog, act, List.append_assoc]; rfl)
      rw [hadded] at hcall
      rcases List.mem_cons.mp hcall with heq | hmem
      · cases heq
      · exact absurd hthrows (hextra _ hmem info rfl)
  | error s' =>
      rw [hhandlers] at hstep hpasses
      obtain ⟨extra, hlog⟩ := hpasses
      have hadded : added opts s (.data chunk answer) = .received chunk :: extra ++ [.uncaught] :=
        added_eq (by simp [hstep, afterHandlers, ← hlog, act])
      rw [hadded]
      exact List.mem_append_right _ (List.mem_singleton.mpr rfl)

/-! ## The failures that end the client -/

/-- **In every run, a failure of `authenticate` ends the client cleanly exactly if it does not
throw.** -/
theorem endsCleanly_iff (opts : Options) (endpoints : SocketInfo) (events : List Event) (e : Event)
    (failure : Failure) (h : Fails opts (run (step opts) (accepted endpoints) events) e failure) :
    EndsCleanly opts (run (step opts) (accepted endpoints) events) e failure ↔
      failure ≠ .thrown := by
  have hinv := inv_run opts endpoints events
  cases h with
  | falsy i check hcheck hasked =>
      exact iff_of_true (endsCleanly_settle hinv hcheck hasked (by simp) (by simp)) (by simp)
  | rejected i check hcheck hasked =>
      exact iff_of_true (endsCleanly_settle hinv hcheck hasked (by simp) (by simp)) (by simp)
  | thrown chunk answer info hcall hthrows =>
      refine iff_of_false (fun hclean => ?_) (by simp)
      exact hclean.no_exception (uncaught_of_throws hcall hthrows)

/-- The local end of the sockets below. -/
def loopback : SocketInfo where
  remoteAddress := some "127.0.0.1"
  remotePort := some 40000
  localAddress := some "127.0.0.1"
  localPort := some 1080

/-- A promise that is rejected in the no-auth branch. -/
theorem endsCleanly_rejected :
    EndsCleanly ⟨true⟩
      (run (step ⟨true⟩) (accepted loopback) [.data [0x05, 0x01, 0x00] fun _ => .returns])
      (.settle 0 .rejected) .rejected :=
  (endsCleanly_iff ⟨true⟩ loopback _ _ .rejected
    (.rejected 0 ⟨none, authInfo none (socketInfo loopback), true⟩ rfl rfl)).mpr (by decide)

/-- A throw in the no-auth branch: the exception escapes, and the client is not ended. -/
theorem not_endsCleanly_throws :
    ¬ ∀ (opts : Options) (endpoints : SocketInfo) (events : List Event) (e : Event)
        (failure : Failure), Fails opts (run (step opts) (accepted endpoints) events) e failure →
        EndsCleanly opts (run (step opts) (accepted endpoints) events) e failure := by
  intro h
  have hlog : added ⟨true⟩ (accepted loopback) (.data [0x05, 0x01, 0x00] fun _ => .throws) =
      [.received [0x05, 0x01, 0x00], .wrote [0x05, 0x00],
        .authenticate (authInfo none (socketInfo loopback)), .uncaught] := rfl
  have hfails : Fails ⟨true⟩ (accepted loopback)
      (.data [0x05, 0x01, 0x00] fun _ => .throws) .thrown :=
    .thrown _ _ (authInfo none (socketInfo loopback)) (by simp [hlog]) rfl
  have hclean := h ⟨true⟩ loopback [] _ .thrown hfails
  exact hclean.no_exception (by simp [hlog])

end Socket

end Proxinator.Socks5
