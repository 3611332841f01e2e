import Proxinator.Socks5

/-!
# The handshake of one socket

The invariant of a SOCKS5 client socket. Until it is promoted, its listeners, its unsettled
checks and the `transcript` of what happened fit together in one of the ways of `Progress`:
each stage of the handshake has one transcript, and only an `Approved` one leads to the
stage that reads a request. After that it is `Promoted`, and nothing is promoted again.

## Main results

* `Socket.Inv` — the invariant, and `inv_run`: it holds after every run.
-/

namespace Proxinator.Socks5

open Lib

/-! ## Transcripts -/

/-- An action of the handshake, not of the teardown of the socket or of its tunnel. -/
def isHandshake : Action → Bool
  | .lost _ | .piped _ | .close | .error _ _ => false
  | _ => true

/-- The actions of the handshake. -/
def transcript (log : List Action) : List Action := log.filter isHandshake

@[simp] theorem transcript_nil : transcript [] = [] := rfl

@[simp] theorem transcript_append (log log' : List Action) :
    transcript (log ++ log') = transcript log ++ transcript log' :=
  List.filter_append ..

@[simp] theorem transcript_cons (action : Action) (log : List Action) :
    transcript (action :: log) =
      if isHandshake action then action :: transcript log else transcript log :=
  List.filter_cons ..

theorem connection_mem_transcript {address : Address} {log : List Action} :
    .connection address ∈ transcript log ↔ .connection address ∈ log := by
  simp [transcript, isHandshake]

/-- What `authenticate` is asked, if it was given. -/
def asked (opts : Options) (info : AuthInfo) : List Action :=
  if opts.authenticate then [.authenticate info] else []

/-- What `authenticate` is asked and approves, if it was given. -/
def approval (opts : Options) (info : AuthInfo) : List Action :=
  if opts.authenticate then [.authenticate info, .settled (.fulfilled true)] else []

/-- **The transcripts after which a request is read**, with what `getAuth()` is then. -/
inductive Approved (opts : Options) (info : SocketInfo) : Option Credentials → List Action → Prop
  /-- Username/password was not offered, and `authenticate`, if given, approved of that. -/
  | noAuth (g : Bytes) (hg : choose g = .noAuth) :
      Approved opts info none
        ([.received g, .wrote [socksVersion, authNone]] ++ approval opts (authInfo none info))
  /-- The credentials of the auth message were approved by `authenticate`, if given. -/
  | userpass (g a : Bytes) (credentials : Credentials) (hg : choose g = .userpass)
      (ha : parseAuth a = some credentials) :
      Approved opts info (some credentials)
        ([.received g, .wrote [socksVersion, authUserpass], .received a] ++
          approval opts (authInfo (some credentials) info) ++ [.wrote [0x01, 0x00]])

/-- Before a request is read nothing is promoted, ended or thrown. -/
theorem Approved.not_mem {opts : Options} {info : SocketInfo} {auth : Option Credentials}
    {t : List Action} (h : Approved opts info auth t) :
    (∀ address, .connection address ∉ t) ∧ .ended ∉ t ∧ .uncaught ∉ t := by
  cases h <;> cases hopts : opts.authenticate <;> simp [approval, hopts]

/-- How listeners, unsettled checks, `auth` and transcript fit together before a connection
is made of the socket. -/
inductive Progress (opts : Options) (info : SocketInfo) :
    List DataListener → List Check → Option Credentials → List Action → Prop
  | greeting : Progress opts info [.greeting] [] none []
  | auth (g : Bytes) (hg : choose g = .userpass) :
      Progress opts info [.auth info] [] none
        [.received g, .wrote [socksVersion, authUserpass]]
  | checking (g a : Bytes) (credentials : Credentials) (hg : choose g = .userpass)
      (ha : parseAuth a = some credentials) :
      Progress opts info []
        [⟨some credentials, authInfo (some credentials) info, opts.authenticate⟩] none
        ([.received g, .wrote [socksVersion, authUserpass], .received a] ++
          asked opts (authInfo (some credentials) info))
  | checkingNoAuth (g : Bytes) (hg : choose g = .noAuth) (hopts : opts.authenticate = true) :
      Progress opts info [] [⟨none, authInfo none info, true⟩] none
        ([.received g, .wrote [socksVersion, authNone]] ++ asked opts (authInfo none info))
  | request (auth : Option Credentials) (t : List Action) (h : Approved opts info auth t) :
      Progress opts info [.request] [] auth t
  | refused (auth : Option Credentials) (t : List Action) (h : ∀ address, .connection address ∉ t) :
      Progress opts info [] [] auth t

namespace Socket

/-- A socket of which a connection was made, and how it came to it. -/
structure Promoted (opts : Options) (s : Socket) (address : Address) : Prop where
  promoted_eq : s.promoted = [address]
  listeners_eq : ∀ listener ∈ s.dataListeners, listener = .pipe
  checks_eq : s.checks = []
  log_eq : ∃ pre r post, s.log = pre ++ .received r :: .connection address :: post ∧
    Approved opts (socketInfo s.endpoints) s.auth (transcript pre) ∧
    r[1]? = some cmdConnect ∧ parseAddress r = some address ∧
    ∀ address', .connection address' ∉ post

/-- The handshake of a socket is in progress, or a connection was made of it. -/
def Staged (opts : Options) (s : Socket) : Prop :=
  (s.promoted = [] ∧
      Progress opts (socketInfo s.endpoints) s.dataListeners s.checks s.auth (transcript s.log)) ∨
    ∃ address, s.Promoted opts address

/-- **The invariant of a client socket.** -/
structure Inv (opts : Options) (s : Socket) : Prop where
  flowing : s.paused = false
  guarded : .server ∈ s.errorListeners
  stage : s.Staged opts

theorem inv_accepted (opts : Options) (endpoints : SocketInfo) : (accepted endpoints).Inv opts :=
  ⟨rfl, List.mem_singleton.mpr rfl, Or.inl ⟨rfl, .greeting⟩⟩

/-! ## Steps that do not touch the handshake -/

/-- A step that only adds emitted `error` and `close` events to the log. -/
structure Quiet (s s' : Socket) : Prop where
  endpoints_eq : s'.endpoints = s.endpoints
  paused_eq : s'.paused = s.paused
  dataListeners_eq : s'.dataListeners = s.dataListeners
  errorListeners_eq : s'.errorListeners = s.errorListeners
  checks_eq : s'.checks = s.checks
  auth_eq : s'.auth = s.auth
  promoted_eq : s'.promoted = s.promoted
  log_eq : ∃ extra, s'.log = s.log ++ extra ∧
    ∀ action ∈ extra, action = .close ∨ ∃ code connection, action = .error code connection

/-- A step that adds nothing to the log. -/
theorem Quiet.refl (s : Socket) : Quiet s s :=
  ⟨rfl, rfl, rfl, rfl, rfl, rfl, rfl, [], (List.append_nil _).symm, nofun⟩

theorem Quiet.trans {s s' s'' : Socket} (h : Quiet s s') (h' : Quiet s' s'') : Quiet s s'' := by
  exact ⟨h'.endpoints_eq.trans h.endpoints_eq, h'.paused_eq.trans h.paused_eq,
    h'.dataListeners_eq.trans h.dataListeners_eq, h'.errorListeners_eq.trans h.errorListeners_eq,
    h'.checks_eq.trans h.checks_eq, h'.auth_eq.trans h.auth_eq,
    h'.promoted_eq.trans h.promoted_eq, exists_append_trans h.log_eq h'.log_eq⟩

theorem Quiet.destroy (s : Socket) : Quiet s s.destroy :=
  ⟨rfl, rfl, rfl, rfl, rfl, rfl, rfl, [], (List.append_nil _).symm, nofun⟩

theorem Quiet.act_error (s : Socket) (code : Option String) (connection : Bool) :
    Quiet s (s.act (.error code connection)) :=
  ⟨rfl, rfl, rfl, rfl, rfl, rfl, rfl, [.error code connection], rfl,
    fun _ ha => Or.inr ⟨code, connection, List.mem_singleton.mp ha⟩⟩

theorem Quiet.act_close (s : Socket) : Quiet s (s.act .close) :=
  ⟨rfl, rfl, rfl, rfl, rfl, rfl, rfl, [.close], rfl, by simp⟩

/-- Quiet steps in a row. -/
theorem Quiet.foldl {α : Type*} {f : Socket → α → Socket} (hf : ∀ s a, Quiet s (f s a))
    (as : List α) (s : Socket) : Quiet s (as.foldl f s) := by
  induction as generalizing s with
  | nil => exact Quiet.refl s
  | cons a as ih => exact (hf s a).trans (ih (f s a))

theorem Quiet.callErrorListener (code : Option String) (s : Socket) (listener : ErrorListener) :
    Quiet s (s.callErrorListener code listener) := by
  cases listener with
  | server => exact Quiet.act_error s code false
  | tunnel =>
      rw [Socket.callErrorListener]
      split
      · exact Quiet.destroy s
      · exact (Quiet.act_error s code true).trans (Quiet.destroy _)

/-- An error that somebody listens to is quiet. -/
theorem Quiet.onError (code : Option String) {s : Socket} (h : s.errorListeners ≠ []) :
    Quiet s (s.onError code) := by
  rw [Socket.onError, if_neg h]
  exact (Quiet.destroy s).trans (Quiet.foldl (Quiet.callErrorListener code) _ _)

theorem Quiet.onClose (s : Socket) : Quiet s s.onClose := by
  refine Quiet.trans ?_ (Quiet.foldl (fun s _ => Quiet.act_close s) _ _)
  exact ⟨rfl, rfl, rfl, rfl, rfl, rfl, rfl, [], (List.append_nil _).symm, nofun⟩

theorem Quiet.transcript_eq {s s' : Socket} (h : Quiet s s') :
    transcript s'.log = transcript s.log := by
  obtain ⟨extra, hlog, hextra⟩ := h.log_eq
  have hnil : transcript extra = [] := by
    apply List.filter_eq_nil_iff.mpr
    intro action ha
    rcases hextra action ha with rfl | ⟨code, connection, rfl⟩ <;> simp [isHandshake]
  rw [hlog, transcript_append, hnil, List.append_nil]

/-- A quiet step keeps the invariant. -/
theorem Inv.quiet {opts : Options} {s s' : Socket} (hs : s.Inv opts) (h : Quiet s s') :
    s'.Inv opts := by
  refine ⟨h.paused_eq.trans hs.flowing, by simpa only [h.errorListeners_eq] using hs.guarded, ?_⟩
  rcases hs.stage with ⟨hpromoted, hprogress⟩ | ⟨address, hp⟩
  · refine Or.inl ⟨h.promoted_eq.trans hpromoted, ?_⟩
    rw [h.endpoints_eq, h.dataListeners_eq, h.checks_eq, h.auth_eq, h.transcript_eq]
    exact hprogress
  · obtain ⟨pre, r, post, hlog, happroved, hr, haddress, hpost⟩ := hp.log_eq
    obtain ⟨extra, hextra, hclose⟩ := h.log_eq
    refine Or.inr ⟨address, h.promoted_eq.trans hp.promoted_eq, ?_, h.checks_eq.trans hp.checks_eq,
      pre, r, post ++ extra, ?_, ?_, hr, haddress, fun address' hmem => ?_⟩
    · rw [h.dataListeners_eq]
      exact hp.listeners_eq
    · rw [hextra, hlog]
      simp
    · rw [h.endpoints_eq, h.auth_eq]
      exact happroved
    · rcases List.mem_append.mp hmem with hmem | hmem
      · exact hpost address' hmem
      · rcases hclose _ hmem with heq | ⟨code, connection, heq⟩ <;> cases heq

/-! ## Data -/

variable {opts : Options} {s : Socket}

/-- The only listener of a socket is called. -/
theorem onData_eq {listener : DataListener} (answer : AuthInfo → Answer) (chunk : Bytes)
    (h : s.dataListeners = [listener]) :
    s.onData opts answer chunk =
      afterHandlers ((s.act (.received chunk)).callListener opts answer chunk listener) := by
  rw [onData, h, if_neg (by simp), List.foldlM_cons]
  cases callListener opts answer chunk (s.act (.received chunk)) listener <;> rfl

/-- The socket once its `once` listener has been removed and given a chunk. -/
def taken (s : Socket) (chunk : Bytes) : Socket :=
  { s with dataListeners := [], log := s.log ++ [.received chunk] }

@[simp] theorem taken_endpoints (s : Socket) (chunk : Bytes) :
    (s.taken chunk).endpoints = s.endpoints := rfl

theorem onData_greeting (answer : AuthInfo → Answer) (g : Bytes)
    (h : s.dataListeners = [.greeting]) :
    s.onData opts answer g = afterHandlers ((s.taken g).onGreeting opts answer g) := by
  rw [onData_eq answer g h]
  simp [callListener, taken, act, h]

theorem onData_auth {info : SocketInfo} (answer : AuthInfo → Answer) (a : Bytes)
    (h : s.dataListeners = [.auth info]) :
    s.onData opts answer a = afterHandlers ((s.taken a).onAuth opts answer info a) := by
  rw [onData_eq answer a h]
  simp [callListener, taken, act, h]

theorem onData_request (answer : AuthInfo → Answer) (r : Bytes)
    (h : s.dataListeners = [.request]) :
    s.onData opts answer r = (s.taken r).onRequest r := by
  rw [onData_eq answer r h]
  simp [callListener, afterHandlers, taken, act, h]

/-- A socket that is refused, or left alone, without having been promoted. -/
theorem staged_refused {log : List Action} (extra : List Action) (hpromoted : s.promoted = [])
    (hlisteners : s.dataListeners = []) (hchecks : s.checks = []) (hlog : s.log = log ++ extra)
    (hnone : ∀ address, .connection address ∉ transcript log)
    (hextra : ∀ address, .connection address ∉ extra) : s.Staged opts := by
  refine Or.inl ⟨hpromoted, ?_⟩
  rw [hlisteners, hchecks]
  apply Progress.refused
  intro address hmem
  rw [hlog, transcript_append] at hmem
  rcases List.mem_append.mp hmem with hmem | hmem
  · exact hnone address hmem
  · exact hextra address (connection_mem_transcript.mp hmem)

theorem staged_greeting (answer : AuthInfo → Answer) (g : Bytes) (hpromoted : s.promoted = [])
    (hlisteners : s.dataListeners = [.greeting]) (hchecks : s.checks = []) (hauth : s.auth = none)
    (hlog : transcript s.log = []) : (s.onData opts answer g).Staged opts := by
  have hnone : ∀ address, .connection address ∉ transcript s.log := by simp [hlog]
  rw [onData_greeting answer g hlisteners, onGreeting_eq]
  cases hg : choose g with
  | badVersion =>
      refine staged_refused [.received g, .ended] hpromoted rfl hchecks ?_ hnone (by simp)
      simp [afterHandlers, taken, endSocket, act]
  | userpass =>
      refine Or.inl ⟨hpromoted, ?_⟩
      simpa [afterHandlers, taken, write, onceData, act, isHandshake, hchecks, hauth, hlog]
        using Progress.auth g hg
  | noAuth =>
      cases hopts : opts.authenticate with
      | false =>
          have happroved : Approved opts (socketInfo s.endpoints) none _ := .noAuth g hg
          refine Or.inl ⟨hpromoted, ?_⟩
          simpa [hopts, approval, afterHandlers, taken, write, onceData, handleRequest, resume, act,
            isHandshake, hchecks, hauth, hlog] using Progress.request _ _ happroved
      | true =>
          cases hanswer : answer (authInfo none (socketInfo s.endpoints)) with
          | throws =>
              simp only [authenticate, taken_endpoints, hanswer, if_true]
              refine staged_refused [.received g, .wrote [socksVersion, authNone],
                .authenticate (authInfo none (socketInfo s.endpoints)), .uncaught] hpromoted rfl
                hchecks ?_ hnone (by simp)
              simp [afterHandlers, taken, write, act]
          | returns =>
              have hchecking : Progress opts (socketInfo s.endpoints) [] _ none _ :=
                .checkingNoAuth g hg hopts
              simp only [authenticate, taken_endpoints, hanswer, if_true]
              refine Or.inl ⟨hpromoted, ?_⟩
              simpa [hopts, asked, afterHandlers, taken, write, act, isHandshake, hchecks, hauth,
                hlog] using hchecking
  | noAcceptable =>
      refine staged_refused [.received g, .wrote [socksVersion, authNoAcceptable], .ended]
        hpromoted rfl hchecks ?_ hnone (by simp)
      simp [afterHandlers, taken, write, endSocket, act]

theorem staged_auth (answer : AuthInfo → Answer) (g a : Bytes) (hg : choose g = .userpass)
    (hpromoted : s.promoted = []) (hlisteners : s.dataListeners = [.auth (socketInfo s.endpoints)])
    (hchecks : s.checks = []) (hauth : s.auth = none)
    (hlog : transcript s.log = [.received g, .wrote [socksVersion, authUserpass]]) :
    (s.onData opts answer a).Staged opts := by
  have hnone : ∀ address, .connection address ∉ transcript s.log := by simp [hlog]
  rw [onData_auth answer a hlisteners, onAuth]
  cases ha : parseAuth a with
  | none =>
      refine staged_refused [.received a, .wrote [0x01, 0x01], .ended] hpromoted rfl hchecks ?_
        hnone (by simp)
      simp [afterHandlers, taken, write, endSocket, act]
  | some credentials =>
      have hchecking : Progress opts (socketInfo s.endpoints) [] _ none _ :=
        .checking g a credentials hg ha
      cases hopts : opts.authenticate with
      | false =>
          refine Or.inl ⟨hpromoted, ?_⟩
          simpa [hopts, asked, afterHandlers, taken, act, isHandshake, hchecks, hauth, hlog]
            using hchecking
      | true =>
          cases hanswer : answer (authInfo (some credentials) (socketInfo s.endpoints)) with
          | throws =>
              simp only [authenticate, taken_endpoints, hanswer, if_true]
              refine staged_refused [.received a,
                .authenticate (authInfo (some credentials) (socketInfo s.endpoints)), .uncaught]
                hpromoted rfl hchecks ?_ hnone (by simp)
              simp [afterHandlers, taken, act]
          | returns =>
              simp only [authenticate, taken_endpoints, hanswer, if_true]
              refine Or.inl ⟨hpromoted, ?_⟩
              simpa [hopts, asked, afterHandlers, taken, act, isHandshake, hchecks, hauth, hlog]
                using hchecking

theorem staged_request (answer : AuthInfo → Answer) (r : Bytes) (hpromoted : s.promoted = [])
    (hlisteners : s.dataListeners = [.request]) (hchecks : s.checks = [])
    (happroved : Approved opts (socketInfo s.endpoints) s.auth (transcript s.log)) :
    (s.onData opts answer r).Staged opts := by
  have hnone := happroved.not_mem.1
  rw [onData_request answer r hlisteners, onRequest]
  split_ifs with hcmd
  · refine staged_refused [.received r, .wrote (buildReply 0x07), .ended] hpromoted rfl hchecks ?_
      hnone (by simp)
    simp [taken, write, endSocket, act]
  · cases haddress : parseAddress r with
    | none =>
        refine staged_refused [.received r, .wrote (buildReply 0x01), .ended] hpromoted rfl hchecks
          ?_ hnone (by simp)
        simp [taken, write, endSocket, act]
    | some address =>
        refine Or.inr ⟨address, ?_, nofun, hchecks, s.log, r, [], ?_, happroved, not_not.mp hcmd,
          haddress, by simp⟩
        · simp [taken, promote, act, hpromoted]
        · simp [taken, promote, act]

/-- Data that reaches a socket which waits for no message. -/
theorem staged_lost (answer : AuthInfo → Answer) (chunk : Bytes) (hlisteners : s.dataListeners = [])
    (hs : s.Staged opts) : (s.onData opts answer chunk).Staged opts := by
  rw [onData, if_pos hlisteners]
  rcases hs with ⟨hpromoted, hprogress⟩ | ⟨address, hp⟩
  · refine Or.inl ⟨hpromoted, ?_⟩
    simpa [act, isHandshake] using hprogress
  · obtain ⟨pre, r, post, hlog, happroved, hr, haddress, hpost⟩ := hp.log_eq
    refine Or.inr ⟨address, hp.promoted_eq, hp.listeners_eq, hp.checks_eq, pre, r,
      post ++ [.lost chunk], ?_, happroved, hr, haddress, by simpa using hpost⟩
    simp [act, hlog]

/-- A promoted socket only adds to its log, never a second connection. -/
theorem Promoted.extend {s' : Socket} {address : Address} (hp : s.Promoted opts address)
    (extra : List Action) (hlog : s'.log = s.log ++ extra)
    (hextra : ∀ address', .connection address' ∉ extra) (hendpoints : s'.endpoints = s.endpoints)
    (hauth : s'.auth = s.auth) (hpromoted : s'.promoted = s.promoted)
    (hchecks : s'.checks = s.checks)
    (hlisteners : ∀ listener ∈ s'.dataListeners, listener = .pipe) :
    s'.Promoted opts address := by
  obtain ⟨pre, r, post, hlog', happroved, hr, haddress, hpost⟩ := hp.log_eq
  refine ⟨hpromoted.trans hp.promoted_eq, hlisteners, hchecks.trans hp.checks_eq,
    pre, r, post ++ extra, ?_, ?_, hr, haddress, fun address' hmem => ?_⟩
  · rw [hlog, hlog']
    simp
  · rwa [hendpoints, hauth]
  · exact (List.mem_append.mp hmem).elim (hpost address') (hextra address')

/-- The pipe listeners of a tunnel take a chunk. -/
theorem foldlM_pipe (answer : AuthInfo → Answer) (chunk : Bytes) (listeners : List DataListener)
    (hpipe : ∀ listener ∈ listeners, listener = .pipe) (s : Socket) :
    listeners.foldlM (callListener opts answer chunk) s =
      .ok { s with log := s.log ++ List.replicate listeners.length (.piped chunk) } := by
  induction listeners generalizing s with
  | nil => simp [pure, Except.pure]
  | cons listener listeners ih =>
      obtain rfl := hpipe listener List.mem_cons_self
      rw [List.foldlM_cons]
      refine (ih (fun l hl => hpipe l (List.mem_cons_of_mem _ hl)) (s.act (.piped chunk))).trans ?_
      simp [act, List.replicate_succ]

/-- A chunk at a socket whose listeners are those of tunnels. -/
theorem onData_pipe (answer : AuthInfo → Answer) (chunk : Bytes)
    (hpipe : ∀ listener ∈ s.dataListeners, listener = .pipe) (hne : s.dataListeners ≠ []) :
    s.onData opts answer chunk =
      { s with
        log := s.log ++
          .received chunk :: List.replicate s.dataListeners.length (.piped chunk) } := by
  rw [onData, if_neg hne, foldlM_pipe answer chunk _ hpipe]
  simp [afterHandlers, act]

theorem Promoted.data {address : Address} (hp : s.Promoted opts address)
    (answer : AuthInfo → Answer) (chunk : Bytes) :
    (s.onData opts answer chunk).Promoted opts address := by
  by_cases hnil : s.dataListeners = []
  · rw [onData, if_pos hnil]
    exact hp.extend [.lost chunk] rfl (by simp) rfl rfl rfl rfl hp.listeners_eq
  · rw [onData_pipe answer chunk hp.listeners_eq hnil]
    exact hp.extend (.received chunk :: List.replicate s.dataListeners.length (.piped chunk))
      rfl (by simp) rfl rfl rfl rfl hp.listeners_eq

theorem staged_data (answer : AuthInfo → Answer) (chunk : Bytes) (hs : s.Staged opts) :
    (s.onData opts answer chunk).Staged opts := by
  by_cases hnil : s.dataListeners = []
  · exact staged_lost answer chunk hnil hs
  rcases hs with ⟨hpromoted, hprogress⟩ | ⟨address, hp⟩
  · generalize hlisteners : s.dataListeners = listeners at hprogress hnil
    generalize hchecks : s.checks = checks at hprogress
    generalize hauth : s.auth = auth at hprogress
    generalize hlog : transcript s.log = t at hprogress
    cases hprogress with
    | greeting => exact staged_greeting answer chunk hpromoted hlisteners hchecks hauth hlog
    | auth g hg => exact staged_auth answer g chunk hg hpromoted hlisteners hchecks hauth hlog
    | request auth t happroved =>
        refine staged_request answer chunk hpromoted hlisteners hchecks ?_
        rwa [hauth, hlog]
    | checking | checkingNoAuth | refused => exact absurd rfl hnil
  · exact Or.inr ⟨address, hp.data answer chunk⟩

/-! ## Settlements -/

/-- What `authenticate` was asked is answered. -/
theorem approval_eq (info : AuthInfo) :
    approval opts info =
      asked opts info ++ if opts.authenticate then [.settled (.fulfilled true)] else [] := by
  cases hopts : opts.authenticate <;> simp [approval, asked, hopts]

/-- The handlers of a check: an approval makes the server read a request, everything else
refuses the socket. -/
theorem staged_onSettled {check : Check} {result : Settlement} (hpromoted : s.promoted = [])
    (hlisteners : s.dataListeners = []) (hchecks : s.checks = [])
    (hnone : ∀ address, .connection address ∉ transcript s.log)
    (happroved : result = .fulfilled true →
      Approved opts (socketInfo s.endpoints) (check.credentials.orElse fun _ => s.auth)
        (transcript s.log ++ if check.credentials.isSome then [.wrote [0x01, 0x00]] else [])) :
    (s.onSettled check result).Staged opts := by
  cases result with
  | fulfilled valid =>
      cases valid with
      | true =>
          have hrequest := Progress.request _ _ (happroved rfl)
          cases hcredentials : check.credentials with
          | none =>
              refine Or.inl ⟨?_, ?_⟩
              · simpa [onSettled, hcredentials, handleRequest, onceData, resume] using hpromoted
              · simpa [onSettled, hcredentials, handleRequest, onceData, resume, hlisteners,
                  hchecks] using hrequest
          | some credentials =>
              refine Or.inl ⟨?_, ?_⟩
              · simpa [onSettled, hcredentials, handleRequest, onceData, resume, write, act]
                  using hpromoted
              · simpa [onSettled, hcredentials, handleRequest, onceData, resume, write, act,
                  isHandshake, hlisteners, hchecks] using hrequest
      | false =>
          cases hcredentials : check.credentials with
          | none =>
              rw [onSettled.eq_def, hcredentials]
              exact staged_refused [.ended] hpromoted hlisteners hchecks rfl hnone (by simp)
          | some credentials =>
              rw [onSettled.eq_def, hcredentials]
              refine staged_refused [.wrote [0x01, 0x01], .ended] hpromoted hlisteners hchecks ?_
                hnone (by simp)
              simp [write, endSocket, act]
  | rejected =>
      rw [onSettled.eq_def]
      refine staged_refused [.error none false, .ended] hpromoted hlisteners hchecks ?_ hnone
        (by simp)
      simp [endSocket, act]

private theorem eq_of_getElem?_singleton {α : Type*} {a b : α} {i : ℕ} (h : [a][i]? = some b) :
    i = 0 ∧ a = b := by
  cases i with
  | zero => exact ⟨rfl, Option.some.inj h⟩
  | succ i => cases h

/-- An unsettled check is the only one, and its approval is all that a request waits for. -/
theorem progress_check {info : SocketInfo} {listeners : List DataListener} {checks : List Check}
    {auth : Option Credentials} {t : List Action} (h : Progress opts info listeners checks auth t)
    {i : ℕ} {check : Check} (hcheck : checks[i]? = some check) :
    listeners = [] ∧ checks.eraseIdx i = [] ∧ auth = none ∧ (∀ address, .connection address ∉ t) ∧
      Approved opts info check.credentials
        (t ++ (if check.asked then [.settled (.fulfilled true)] else []) ++
          if check.credentials.isSome then [.wrote [0x01, 0x00]] else []) := by
  cases h with
  | greeting | auth | request | refused => cases hcheck
  | checking g a credentials hg ha =>
      obtain ⟨rfl, rfl⟩ := eq_of_getElem?_singleton hcheck
      refine ⟨rfl, rfl, rfl, ?_, ?_⟩
      · cases hopts : opts.authenticate <;> simp [asked, hopts]
      · have happroved : Approved opts info (some credentials) _ := .userpass g a credentials hg ha
        rw [approval_eq] at happroved
        simpa using happroved
  | checkingNoAuth g hg hopts =>
      obtain ⟨rfl, rfl⟩ := eq_of_getElem?_singleton hcheck
      refine ⟨rfl, rfl, rfl, ?_, ?_⟩
      · simp [asked, hopts]
      · have happroved : Approved opts info none _ := .noAuth g hg
        rw [approval_eq, hopts] at happroved
        simpa using happroved

theorem staged_settle (i : ℕ) (result : Settlement) (hs : s.Staged opts) :
    (s.onSettle i result).Staged opts := by
  rw [onSettle]
  cases hcheck : s.checks[i]? with
  | none => exact hs
  | some check =>
      rcases hs with ⟨hpromoted, hprogress⟩ | ⟨address, hp⟩
      · obtain ⟨hlisteners, hchecks, hauth, hnone, happroved⟩ := progress_check hprogress hcheck
        by_cases hasked : check.asked = true
        · simp only [hasked, if_true]
          refine staged_onSettled hpromoted hlisteners hchecks ?_ fun hresult => ?_
          · simpa [act, isHandshake] using hnone
          · simpa [act, isHandshake, hauth, hresult, hasked] using happroved
        · simp only [hasked, Bool.false_eq_true, if_false]
          refine staged_onSettled hpromoted hlisteners hchecks hnone fun _ => ?_
          simpa [hauth, hasked] using happroved
      · rw [hp.checks_eq] at hcheck
        cases hcheck

/-! ## Runs -/

/-- The socket flows and the server listens to its errors. -/
def Open (s : Socket) : Prop := s.paused = false ∧ .server ∈ s.errorListeners

/-- The state in which a handler ends. -/
def stateOf : Except Socket Socket → Socket
  | .ok s => s
  | .error s => s

/-- **What every listener keeps holds after a chunk**, if it does not depend on what is
recorded of the chunk itself. -/
theorem onData_invariant {P : Socket → Prop} {opts : Options} {answer : AuthInfo → Answer}
    {chunk : Bytes} {s : Socket} (hlost : P (s.act (.lost chunk)))
    (hreceived : P (s.act (.received chunk))) (huncaught : ∀ s, P s → P (s.act .uncaught))
    (hcall : ∀ listener s, P s → P (stateOf (callListener opts answer chunk s listener))) :
    P (s.onData opts answer chunk) := by
  have hfold : ∀ (listeners : List DataListener) (s : Socket), P s →
      P (stateOf (listeners.foldlM (callListener opts answer chunk) s)) := by
    intro listeners
    induction listeners with
    | nil => exact fun s hs => hs
    | cons listener listeners ih =>
        intro s hs
        have hcalled := hcall listener s hs
        rw [List.foldlM_cons]
        cases hresult : callListener opts answer chunk s listener with
        | error s' => rwa [hresult] at hcalled
        | ok s' =>
            rw [hresult] at hcalled
            exact ih s' hcalled
  rw [onData]
  split_ifs
  · exact hlost
  · have hfolded := hfold s.dataListeners _ hreceived
    cases hresult : s.dataListeners.foldlM (callListener opts answer chunk)
        (s.act (.received chunk)) with
    | ok s' => rwa [hresult] at hfolded
    | error s' =>
        rw [hresult] at hfolded
        exact huncaught s' hfolded

theorem open_callListener (opts : Options) (answer : AuthInfo → Answer) (chunk : Bytes)
    (hs : s.Open) (listener : DataListener) :
    (stateOf (callListener opts answer chunk s listener)).Open := by
  cases listener with
  | greeting =>
      rw [callListener, onGreeting_eq]
      cases choose chunk with
      | noAuth =>
          simp only [authenticate]
          split_ifs
          · split <;> exact hs
          · exact ⟨rfl, hs.2⟩
      | badVersion | userpass | noAcceptable => exact hs
  | auth info =>
      simp only [callListener, onAuth, authenticate]
      split
      · exact hs
      · split_ifs
        · split <;> exact hs
        · exact hs
  | request =>
      simp only [callListener, onRequest]
      split_ifs
      · exact hs
      · split <;> exact hs
  | pipe => exact hs

theorem open_data (opts : Options) (answer : AuthInfo → Answer) (chunk : Bytes) (hs : s.Open) :
    (s.onData opts answer chunk).Open :=
  onData_invariant hs hs (fun _ h => h) fun listener _ h =>
    open_callListener opts answer chunk h listener

theorem open_settle (i : ℕ) (result : Settlement) (hs : s.Open) : (s.onSettle i result).Open := by
  have hsettled : ∀ (check : Check) (result : Settlement) {s : Socket}, s.Open →
      (s.onSettled check result).Open := by
    intro check result s hs
    rw [onSettled.eq_def]
    split
    · exact ⟨rfl, hs.2⟩
    · exact ⟨rfl, hs.2⟩
    · exact hs
    · exact hs
    · exact hs
  rw [onSettle]
  split
  · exact hs
  · split_ifs
    · exact hsettled _ _ hs
    · exact hsettled _ _ hs

/-- What the user's handler does with a connection. -/
theorem inv_promoted {s' : Socket} (extra : List Action) (hs : s.Inv opts) (h : s.promoted ≠ [])
    (hopen : s'.Open) (hlog : s'.log = s.log ++ extra)
    (hextra : ∀ address', .connection address' ∉ extra) (hendpoints : s'.endpoints = s.endpoints)
    (hauth : s'.auth = s.auth) (hpromoted : s'.promoted = s.promoted)
    (hchecks : s'.checks = s.checks)
    (hlisteners : ∀ listener ∈ s'.dataListeners, listener ∈ s.dataListeners ∨ listener = .pipe) :
    s'.Inv opts := by
  refine ⟨hopen.1, hopen.2, ?_⟩
  rcases hs.stage with ⟨hnil, -⟩ | ⟨address, hp⟩
  · exact absurd hnil h
  · exact Or.inr ⟨address, hp.extend extra hlog hextra hendpoints hauth hpromoted hchecks
      fun listener hl => (hlisteners listener hl).elim (hp.listeners_eq listener) id⟩

/-- **Every step keeps the invariant.** -/
theorem inv_step {e : Event} (hs : s.Inv opts) : (s.step opts e).Inv opts := by
  have hopen : s.Open := ⟨hs.flowing, hs.guarded⟩
  cases e with
  | data chunk answer =>
      rw [step]
      split_ifs
      · exact hs
      · have hopen' := open_data opts answer chunk hopen
        exact ⟨hopen'.1, hopen'.2, staged_data answer chunk hs.stage⟩
  | settle i result =>
      have hopen' := open_settle i result hopen
      exact ⟨hopen'.1, hopen'.2, staged_settle i result hs.stage⟩
  | handshakeTimeout =>
      rw [step]
      split_ifs
      · exact hs.quiet ⟨rfl, rfl, rfl, rfl, rfl, rfl, rfl, [], (List.append_nil _).symm, nofun⟩
      · exact hs
  | error code =>
      rw [step]
      split_ifs
      · exact hs
      · exact hs.quiet (Quiet.onError code (List.ne_nil_of_mem hs.guarded))
  | close =>
      rw [step]
      split_ifs
      · exact hs
      · exact hs.quiet (Quiet.onClose s)
  | bind =>
      rw [step]
      split_ifs with hnil
      · exact hs
      · refine inv_promoted [.wrote (buildReply 0x00)] hs hnil
          ⟨rfl, List.mem_append_left _ hs.guarded⟩ rfl (by simp) rfl rfl rfl rfl ?_
        intro listener hl
        simpa [bind, write, act] using hl
  | refuse =>
      rw [step]
      split_ifs with hnil
      · exact hs
      · exact inv_promoted [.wrote (buildReply 0x01), .ended] hs hnil hopen
          (by simp [write, endSocket, act]) (by simp) rfl rfl rfl rfl fun _ => Or.inl
  | «end» =>
      rw [step]
      split_ifs with hnil
      · exact hs
      · exact inv_promoted [.ended] hs hnil hopen rfl (by simp) rfl rfl rfl rfl
          fun _ => Or.inl
  | destroy =>
      exact hs.quiet ⟨rfl, rfl, rfl, rfl, rfl, rfl, rfl, [], (List.append_nil _).symm, nofun⟩

/-- **The invariant holds after every run.** -/
theorem inv_run (opts : Options) (endpoints : SocketInfo) (events : List Event) :
    (run (step opts) (accepted endpoints) events).Inv opts :=
  run_invariant (fun _ _ => inv_step) (inv_accepted opts endpoints) events

end Socket

end Proxinator.Socks5
