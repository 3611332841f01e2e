import Proxinator.Socks5.Handshake

/-!
# SOCKS5 messages that arrive in segments

Each handshake listener takes the one chunk it is given for its whole message. So what
counts of a conversation is its `reading`: the first chunk, the chunk after it if that
asked for credentials, and the first chunk after the server has approved. A conversation
that arrives in segments has the outcome of the unsegmented one exactly if the two readings
agree (`segmentation_iff`). For a client that comes to a connection that is a condition on the
chunks that the listeners are given: on two without credentials (`segmentation_noAuth_iff`,
`segmentation_authenticate_iff`), on three with them (`segmentation_userpass_iff`). One cut in
the greeting is enough to violate it (`segmentation_refused`).
-/

namespace Proxinator.Socks5

open Lib

/-! ## Conversations -/

/-- What `authenticate` makes of its argument, in a conversation that it decides by it. -/
inductive Verdict
  | approves
  | denies
  | rejects
  | throws
  deriving DecidableEq, Repr

def Verdict.answer : Verdict → Answer
  | .throws => .throws
  | _ => .returns

def Verdict.settlement : Verdict → Settlement
  | .approves => .fulfilled true
  | .denies => .fulfilled false
  | _ => .rejected

/-- What arrives at the server: a chunk of the client, or the settlement of the pending
promise. -/
inductive Arrival
  | chunk (data : Bytes)
  | settle
  deriving DecidableEq, Repr

/-- The chunks among the arrivals. -/
def chunksOf : List Arrival → List Bytes
  | [] => []
  | .chunk data :: arrivals => data :: chunksOf arrivals
  | .settle :: arrivals => chunksOf arrivals

/-- The arrivals of one message with all its chunks in the first one. -/
def whole : List Arrival → List Arrival
  | [] => []
  | .settle :: arrivals => .settle :: whole arrivals
  | .chunk data :: arrivals =>
    .chunk (data ++ (chunksOf arrivals).flatten) :: arrivals.filter (· = .settle)

/-- The chunks of a message that arrive in a row are its bytes in one chunk. -/
theorem whole_chunks (data : Bytes) (chunks : List Bytes) :
    whole ((data :: chunks).map .chunk) = [.chunk (data :: chunks).flatten] := by
  have hchunks : ∀ chunks : List Bytes, chunksOf (chunks.map .chunk) = chunks := by
    intro chunks
    induction chunks with
    | nil => rfl
    | cons chunk chunks ih => rw [List.map_cons, chunksOf, ih]
  rw [List.map_cons, whole, hchunks, List.flatten_cons]
  congr 1
  simp

/-- One arrival at a socket. -/
def arrive (opts : Options) (verdict : AuthInfo → Verdict) (s : Socket) : Arrival → Socket
  | .chunk data => s.step opts (.data data fun info => (verdict info).answer)
  | .settle =>
    match s.checks with
    | [] => s
    | check :: _ => s.step opts (.settle 0 (verdict check.info).settlement)

/-- What the server made of a conversation: the replies it wrote, and the host, port and
`getAuth()` of the connections it emitted. -/
structure Outcome where
  replies : List Bytes
  connections : List (Address × Option Credentials)
  deriving DecidableEq, Repr

/-- The replies among the actions. -/
def repliesOf : List Action → List Bytes
  | [] => []
  | .wrote data :: log => data :: repliesOf log
  | _ :: log => repliesOf log

@[simp] theorem repliesOf_append (log log' : List Action) :
    repliesOf (log ++ log') = repliesOf log ++ repliesOf log' := by
  induction log with
  | nil => rfl
  | cons action log ih => cases action <;> simp [repliesOf, ih]

/-- The outcome at a socket. -/
def Socket.outcome (s : Socket) : Outcome :=
  ⟨repliesOf s.log, s.promoted.map fun address => (address, s.getAuth)⟩

/-- The outcome of a conversation. -/
def converse (opts : Options) (verdict : AuthInfo → Verdict) (endpoints : SocketInfo)
    (arrivals : List Arrival) : Outcome :=
  (run (arrive opts verdict) (Socket.accepted endpoints) arrivals).outcome

/-! ## Readings -/

/-- The next chunk, and what arrives after it. -/
def nextChunk : List Arrival → Option (Bytes × List Arrival)
  | [] => none
  | .chunk data :: arrivals => some (data, arrivals)
  | .settle :: arrivals => nextChunk arrivals

/-- What arrives after the next settlement. -/
def afterSettle : List Arrival → Option (List Arrival)
  | [] => none
  | .settle :: arrivals => some arrivals
  | .chunk _ :: arrivals => afterSettle arrivals

/-- What a chunk is taken for by the listener of the request. -/
inductive RequestReading
  | silent
  | unsupported
  | malformed
  | connect (address : Address)
  deriving DecidableEq, Repr

/-- What a chunk is taken for by the listener of the auth message, with what follows. -/
inductive AuthReading
  | silent
  | refused
  | approved (credentials : Credentials) (request : RequestReading)
  deriving DecidableEq, Repr

/-- What a conversation is taken for. -/
inductive Reading
  | silent
  | noAcceptable
  | noAuth (request : RequestReading)
  | userpass (auth : AuthReading)
  deriving DecidableEq, Repr

/-- The request that is read from the arrivals. -/
def readRequest (arrivals : List Arrival) : RequestReading :=
  match nextChunk arrivals with
  | none => .silent
  | some (r, _) =>
    if r[1]? ≠ some cmdConnect then .unsupported
    else
      match parseAddress r with
      | none => .malformed
      | some address => .connect address

/-- The verdict on a check; there is none to ask without `authenticate`. -/
def verdictOn (opts : Options) (verdict : AuthInfo → Verdict) (info : AuthInfo) : Verdict :=
  if opts.authenticate then verdict info else .approves

/-- What comes of a verdict on credentials, with what arrives after them. -/
def readVerdict (credentials : Credentials) (arrivals : List Arrival) : Verdict → AuthReading
  | .approves =>
    match afterSettle arrivals with
    | some arrivals => .approved credentials (readRequest arrivals)
    | none => .silent
  | .denies => if (afterSettle arrivals).isSome then .refused else .silent
  | .rejects | .throws => .silent

/-- What comes of a verdict on a client without credentials. -/
def readVerdictNoAuth (arrivals : List Arrival) : Verdict → RequestReading
  | .approves =>
    match afterSettle arrivals with
    | some arrivals => readRequest arrivals
    | none => .silent
  | .denies | .rejects | .throws => .silent

/-- The auth message that is read from the arrivals. -/
def readAuth (opts : Options) (verdict : AuthInfo → Verdict) (info : SocketInfo)
    (arrivals : List Arrival) : AuthReading :=
  match nextChunk arrivals with
  | none => .silent
  | some (a, arrivals) =>
    match parseAuth a with
    | none => .refused
    | some credentials =>
      readVerdict credentials arrivals
        (verdictOn opts verdict (authInfo (some credentials) info))

/-- The conversation that is read from the arrivals. -/
def reading (opts : Options) (verdict : AuthInfo → Verdict) (info : SocketInfo)
    (arrivals : List Arrival) : Reading :=
  match nextChunk arrivals with
  | none => .silent
  | some (g, arrivals) =>
    match choose g with
    | .badVersion => .silent
    | .noAcceptable => .noAcceptable
    | .userpass => .userpass (readAuth opts verdict info arrivals)
    | .noAuth =>
      if opts.authenticate then
        .noAuth (readVerdictNoAuth arrivals (verdict (authInfo none info)))
      else .noAuth (readRequest arrivals)

/-- The outcome of a request, with the credentials that were approved before. -/
def RequestReading.outcome (auth : Option Credentials) : RequestReading → Outcome
  | .silent => ⟨[], []⟩
  | .unsupported => ⟨[buildReply 0x07], []⟩
  | .malformed => ⟨[buildReply 0x01], []⟩
  | .connect address => ⟨[], [(address, auth)]⟩

/-- An outcome after replies that were written before. -/
def Outcome.after (replies : List Bytes) (o : Outcome) : Outcome :=
  { o with replies := replies ++ o.replies }

def AuthReading.outcome : AuthReading → Outcome
  | .silent => ⟨[], []⟩
  | .refused => ⟨[[0x01, 0x01]], []⟩
  | .approved credentials request => (request.outcome (some credentials)).after [[0x01, 0x00]]

def Reading.outcome : Reading → Outcome
  | .silent => ⟨[], []⟩
  | .noAcceptable => ⟨[[socksVersion, authNoAcceptable]], []⟩
  | .noAuth request => (request.outcome none).after [[socksVersion, authNone]]
  | .userpass auth => auth.outcome.after [[socksVersion, authUserpass]]

/-- Two auth messages are read alike: the same credentials count if they come to a
connection. -/
def AuthReading.Agrees : AuthReading → AuthReading → Prop
  | .silent, .silent | .refused, .refused => True
  | .approved credentials request, .approved credentials' request' =>
    request = request' ∧ ∀ address, request = .connect address → credentials = credentials'
  | _, _ => False

/-- Two conversations are read alike. -/
def Reading.Agrees : Reading → Reading → Prop
  | .silent, .silent | .noAcceptable, .noAcceptable => True
  | .noAuth request, .noAuth request' => request = request'
  | .userpass auth, .userpass auth' => auth.Agrees auth'
  | _, _ => False

/-! ## The outcome of a reading -/

@[simp] theorem Outcome.after_nil (o : Outcome) : o.after [] = o := rfl

@[simp] theorem Outcome.after_after (replies replies' : List Bytes) (o : Outcome) :
    (o.after replies).after replies' = o.after (replies' ++ replies) := by
  simp [after]

@[simp] theorem Outcome.after_inj (replies : List Bytes) (o o' : Outcome) :
    o.after replies = o'.after replies ↔ o = o' := by
  cases o
  cases o'
  simp [after]

/-- Requests read alike are those with one outcome. -/
theorem RequestReading.outcome_eq_iff {auth auth' : Option Credentials}
    {request request' : RequestReading} :
    request.outcome auth = request'.outcome auth' ↔
      request = request' ∧ ∀ address, request = .connect address → auth = auth' := by
  cases request <;> cases request' <;> simp [outcome, buildReply]

/-- Auth messages read alike are those with one outcome. -/
theorem AuthReading.outcome_eq_iff {auth auth' : AuthReading} :
    auth.outcome = auth'.outcome ↔ auth.Agrees auth' := by
  cases auth with
  | silent => cases auth' <;> simp [outcome, Agrees, Outcome.after]
  | refused => cases auth' <;> simp [outcome, Agrees, Outcome.after]
  | approved credentials request =>
      cases auth' with
      | silent | refused => simp [outcome, Agrees, Outcome.after]
      | approved credentials' request' =>
          rw [outcome, outcome, Outcome.after_inj, RequestReading.outcome_eq_iff, Agrees]
          simp only [Option.some.injEq]

/-- Conversations read alike are those with one outcome. -/
theorem Reading.outcome_eq_iff {r r' : Reading} : r.outcome = r'.outcome ↔ r.Agrees r' := by
  cases r with
  | silent => cases r' <;> simp [outcome, Agrees, Outcome.after]
  | noAcceptable => cases r' <;> simp [outcome, Agrees, Outcome.after]
  | noAuth request =>
      cases r' with
      | noAuth request' =>
          rw [outcome, outcome, Outcome.after_inj, RequestReading.outcome_eq_iff, Agrees]
          simp
      | silent | noAcceptable | userpass => simp [outcome, Agrees, Outcome.after]
  | userpass auth =>
      cases r' with
      | userpass auth' =>
          rw [outcome, outcome, Outcome.after_inj, AuthReading.outcome_eq_iff, Agrees]
      | silent | noAcceptable | noAuth => simp [outcome, Agrees, Outcome.after]

/-! ## The server makes its reading's outcome -/

namespace Socket

variable {opts : Options} {verdict : AuthInfo → Verdict} {s : Socket}

/-- A socket that emits data and of which no connection was made. -/
structure Waiting (s : Socket) (listeners : List DataListener) (checks : List Check) : Prop where
  flowing : s.paused = false
  alive : s.destroyed = false
  unpromoted : s.promoted = []
  listeners_eq : s.dataListeners = listeners
  checks_eq : s.checks = checks

/-- Nothing that arrives at a socket without listeners and checks makes a difference. -/
theorem outcome_done (hlisteners : s.dataListeners = []) (hchecks : s.checks = [])
    (arrivals : List Arrival) : (run (arrive opts verdict) s arrivals).outcome = s.outcome := by
  induction arrivals generalizing s with
  | nil => rfl
  | cons arrival arrivals ih =>
      rw [run_cons]
      cases arrival with
      | settle =>
          rw [arrive, hchecks]
          exact ih hlisteners hchecks
      | chunk data =>
          rw [arrive, step, onData, if_pos hlisteners]
          split_ifs
          · exact ih hlisteners hchecks
          · rw [ih (s := s.act (.lost data)) hlisteners hchecks]
            simp [outcome, act, repliesOf, getAuth]

/-- A socket of which something was recorded and that waits for nothing more. -/
theorem outcome_dead (s' : Socket) (actions : List Action) (h : s.Waiting [] [])
    (hlog : s'.log = s.log ++ actions) (hpromoted : s'.promoted = s.promoted)
    (hlisteners : s'.dataListeners = s.dataListeners) (hchecks : s'.checks = s.checks)
    (arrivals : List Arrival) :
    (run (arrive opts verdict) s' arrivals).outcome =
      Outcome.after (repliesOf s.log) ⟨repliesOf actions, []⟩ := by
  rw [outcome_done (hlisteners.trans h.listeners_eq) (hchecks.trans h.checks_eq)]
  simp [outcome, Outcome.after, hlog, hpromoted, h.unpromoted]

theorem Waiting.taken {listeners : List DataListener} {checks : List Check}
    (h : s.Waiting listeners checks) (chunk : Bytes) : (s.taken chunk).Waiting [] checks :=
  ⟨h.flowing, h.alive, h.unpromoted, rfl, h.checks_eq⟩

@[simp] theorem repliesOf_taken (s : Socket) (chunk : Bytes) :
    repliesOf (s.taken chunk).log = repliesOf s.log := by
  simp [Socket.taken, repliesOf]

/-- A socket that waits for a message takes the next chunk for it. -/
theorem outcome_next {listeners : List DataListener} {f : List Arrival → Outcome}
    (h : s.Waiting listeners [])
    (hsilent : ∀ arrivals, nextChunk arrivals = none → f arrivals = ⟨[], []⟩)
    (hskip : ∀ arrivals, f (.settle :: arrivals) = f arrivals)
    (hchunk : ∀ data arrivals,
      (run (arrive opts verdict) (s.onData opts (fun info => (verdict info).answer) data)
        arrivals).outcome = (f (.chunk data :: arrivals)).after (repliesOf s.log))
    (arrivals : List Arrival) :
    (run (arrive opts verdict) s arrivals).outcome = (f arrivals).after (repliesOf s.log) := by
  induction arrivals with
  | nil =>
      rw [hsilent [] rfl]
      simp [outcome, Outcome.after, h.unpromoted]
  | cons arrival arrivals ih =>
      rw [run_cons]
      cases arrival with
      | settle =>
          rw [arrive, h.checks_eq, hskip]
          exact ih
      | chunk data =>
          rw [arrive, step, h.flowing, h.alive, if_neg (by simp)]
          exact hchunk data arrivals

/-- A socket that waits for a request makes what it reads of it. -/
theorem outcome_request (opts : Options) (verdict : AuthInfo → Verdict)
    (h : s.Waiting [.request] []) (arrivals : List Arrival) :
    (run (arrive opts verdict) s arrivals).outcome =
      ((readRequest arrivals).outcome s.auth).after (repliesOf s.log) := by
  refine outcome_next (f := fun arrivals => (readRequest arrivals).outcome s.auth) h ?_
    (fun _ => rfl) (fun r arrivals => ?_) arrivals
  · intro arrivals hnone
    rw [readRequest, hnone]
    rfl
  · have hdead := h.taken r
    rw [onData_request _ r h.listeners_eq, onRequest, readRequest, nextChunk,
      ← repliesOf_taken s r]
    simp only
    split_ifs with hcmd
    · exact outcome_dead ((s.taken r).write (buildReply 0x07)).endSocket
        [.wrote (buildReply 0x07), .ended] hdead (by simp [write, endSocket, act]) rfl rfl rfl
        arrivals
    · cases haddress : parseAddress r with
      | none =>
          exact outcome_dead ((s.taken r).write (buildReply 0x01)).endSocket
            [.wrote (buildReply 0x01), .ended] hdead (by simp [write, endSocket, act]) rfl rfl rfl
            arrivals
      | some address =>
          refine (outcome_done (s := (s.taken r).promote address) hdead.listeners_eq
            hdead.checks_eq arrivals).trans ?_
          simp [promote, act, outcome, repliesOf, getAuth, h.unpromoted, RequestReading.outcome,
            Outcome.after, Socket.taken]

/-- What comes of a settlement, from what arrives after it. -/
def settledOutcome (result : Settlement) (credentials auth : Option Credentials)
    (arrivals : List Arrival) : Outcome :=
  match result, credentials with
  | .fulfilled true, some credentials =>
    ((readRequest arrivals).outcome (some credentials)).after [[0x01, 0x00]]
  | .fulfilled true, none => (readRequest arrivals).outcome auth
  | .fulfilled false, some _ => ⟨[[0x01, 0x01]], []⟩
  | .fulfilled false, none | .rejected, _ => ⟨[], []⟩

/-- How a check settles. -/
def checkResult (verdict : AuthInfo → Verdict) (check : Check) : Settlement :=
  if check.asked then (verdict check.info).settlement else .fulfilled true

/-- What comes of a check. -/
def checkOutcome (verdict : AuthInfo → Verdict) (check : Check) (auth : Option Credentials)
    (arrivals : List Arrival) : Outcome :=
  match afterSettle arrivals with
  | none => ⟨[], []⟩
  | some arrivals => settledOutcome (checkResult verdict check) check.credentials auth arrivals

theorem outcome_onSettled {check : Check} {result : Settlement} (h : s.Waiting [] [])
    (arrivals : List Arrival) :
    (run (arrive opts verdict) (s.onSettled check result) arrivals).outcome =
      (settledOutcome result check.credentials s.auth arrivals).after (repliesOf s.log) := by
  have hrefused : ∀ actions : List Action,
      (run (arrive opts verdict) { s with log := s.log ++ actions } arrivals).outcome =
        Outcome.after (repliesOf s.log) ⟨repliesOf actions, []⟩ :=
    fun actions =>
      outcome_dead { s with log := s.log ++ actions } actions h rfl rfl rfl rfl arrivals
  cases result with
  | rejected =>
      simpa [onSettled, settledOutcome, repliesOf, endSocket, act]
        using hrefused [.error none false, .ended]
  | fulfilled valid =>
      cases hcredentials : check.credentials with
      | none =>
          cases valid with
          | false =>
              simpa [onSettled, settledOutcome, repliesOf, hcredentials, endSocket, act]
                using hrefused [.ended]
          | true =>
              have hwaiting : s.handleRequest.Waiting [.request] [] :=
                ⟨rfl, h.alive, h.unpromoted,
                  by simp [handleRequest, onceData, resume, h.listeners_eq], h.checks_eq⟩
              rw [onSettled.eq_def, hcredentials]
              exact outcome_request opts verdict hwaiting arrivals
      | some credentials =>
          cases valid with
          | false =>
              simpa [onSettled, settledOutcome, repliesOf, hcredentials, write, endSocket, act]
                using hrefused [.wrote [0x01, 0x01], .ended]
          | true =>
              have hwaiting : ({ s with auth := some credentials }.write [0x01, 0x00]
                  |>.handleRequest).Waiting [.request] [] :=
                ⟨rfl, h.alive, h.unpromoted,
                  by simp [handleRequest, onceData, resume, write, act, h.listeners_eq],
                  h.checks_eq⟩
              have hrequest := outcome_request opts verdict hwaiting arrivals
              rw [onSettled.eq_def, hcredentials, settledOutcome, Outcome.after_after]
              simpa [handleRequest, onceData, resume, write, act, repliesOf] using hrequest

/-- A socket that waits for a check loses what arrives before it settles. -/
theorem outcome_check {check : Check} (h : s.Waiting [] [check]) (arrivals : List Arrival) :
    (run (arrive opts verdict) s arrivals).outcome =
      (checkOutcome verdict check s.auth arrivals).after (repliesOf s.log) := by
  induction arrivals generalizing s with
  | nil => simp [checkOutcome, afterSettle, outcome, Outcome.after, h.unpromoted]
  | cons arrival arrivals ih =>
      rw [run_cons]
      cases arrival with
      | chunk data =>
          rw [arrive, step, h.flowing, h.alive, onData, if_pos h.listeners_eq]
          have hlost : (s.act (.lost data)).Waiting [] [check] :=
            ⟨h.flowing, h.alive, h.unpromoted, h.listeners_eq, h.checks_eq⟩
          simpa [checkOutcome, afterSettle, act, repliesOf] using ih hlost
      | settle =>
          have hdone : ({ s with checks := [] } : Socket).Waiting [] [] :=
            ⟨h.flowing, h.alive, h.unpromoted, h.listeners_eq, rfl⟩
          rw [arrive, h.checks_eq, checkOutcome, afterSettle]
          simp only [step, onSettle, h.checks_eq, List.getElem?_cons_zero, List.eraseIdx_zero,
            List.tail_cons]
          by_cases hasked : check.asked = true
          · have hsettled : ∀ result : Settlement,
                ({ s with checks := [] }.act (.settled result)).Waiting [] [] :=
              fun _ => ⟨h.flowing, h.alive, h.unpromoted, h.listeners_eq, rfl⟩
            rw [if_pos hasked, outcome_onSettled (hsettled _), checkResult, if_pos hasked]
            simp [act, repliesOf]
          · rw [if_neg hasked, outcome_onSettled hdone, checkResult, if_neg hasked]

/-- A check of credentials comes out as it is read. -/
theorem checkOutcome_credentials {credentials : Credentials} {check : Check} {v : Verdict}
    (hcredentials : check.credentials = some credentials)
    (hresult : checkResult verdict check = v.settlement) (auth : Option Credentials)
    (arrivals : List Arrival) :
    checkOutcome verdict check auth arrivals = (readVerdict credentials arrivals v).outcome := by
  rw [checkOutcome, hresult, hcredentials]
  cases v <;> cases hsettle : afterSettle arrivals <;>
    simp [readVerdict, hsettle, settledOutcome, Verdict.settlement, AuthReading.outcome]

/-- And so does a check without any. -/
theorem checkOutcome_noAuth {check : Check} {v : Verdict}
    (verdict : AuthInfo → Verdict) (hcredentials : check.credentials = none)
    (hresult : checkResult verdict check = v.settlement) (arrivals : List Arrival) :
    checkOutcome verdict check none arrivals =
      (readVerdictNoAuth arrivals v).outcome none := by
  rw [checkOutcome, hresult, hcredentials]
  cases v <;> cases hsettle : afterSettle arrivals <;>
    simp [readVerdictNoAuth, hsettle, settledOutcome, Verdict.settlement, RequestReading.outcome]

/-- A call of `authenticate` comes out as the check it makes, also if it throws. -/
theorem outcome_authenticate (h : s.Waiting [] []) (credentials : Option Credentials)
    (info : AuthInfo) (arrivals : List Arrival) :
    (run (arrive opts verdict)
      (afterHandlers (s.authenticate (fun info => (verdict info).answer) credentials info))
      arrivals).outcome =
      (checkOutcome verdict ⟨credentials, info, true⟩ s.auth arrivals).after (repliesOf s.log) := by
  have hcheck : ({ s with
      checks := [⟨credentials, info, true⟩]
      log := s.log ++ [.authenticate info] } : Socket).Waiting [] [⟨credentials, info, true⟩] :=
    ⟨h.flowing, h.alive, h.unpromoted, h.listeners_eq, rfl⟩
  have hreturns : (verdict info).answer = .returns →
      afterHandlers (s.authenticate (fun info => (verdict info).answer) credentials info) =
        { s with
          checks := [⟨credentials, info, true⟩]
          log := s.log ++ [.authenticate info] } := by
    intro hanswer
    simp [authenticate, hanswer, afterHandlers, act, h.checks_eq]
  cases hverdict : verdict info with
  | throws =>
      have hthrows : afterHandlers
          (s.authenticate (fun info => (verdict info).answer) credentials info) =
            (s.act (.authenticate info)).act .uncaught := by
        simp [authenticate, hverdict, Verdict.answer, afterHandlers]
      have hsilent : checkOutcome verdict ⟨credentials, info, true⟩ s.auth arrivals = ⟨[], []⟩ := by
        rw [checkOutcome, checkResult, if_pos rfl, hverdict]
        cases afterSettle arrivals <;> rfl
      rw [hthrows, hsilent]
      exact outcome_dead ((s.act (.authenticate info)).act .uncaught)
        [.authenticate info, .uncaught] h (by simp [act]) rfl rfl rfl arrivals
  | approves | denies | rejects =>
      rw [hreturns (by rw [hverdict]; rfl), outcome_check hcheck arrivals]
      simp [repliesOf]

/-- A socket that waits for an auth message makes what it reads of it. -/
theorem outcome_auth {info : SocketInfo} (h : s.Waiting [.auth info] [])
    (arrivals : List Arrival) :
    (run (arrive opts verdict) s arrivals).outcome =
      ((readAuth opts verdict info arrivals).outcome).after (repliesOf s.log) := by
  refine outcome_next (f := fun arrivals => (readAuth opts verdict info arrivals).outcome) h ?_
    (fun _ => rfl) (fun a arrivals => ?_) arrivals
  · intro arrivals hnone
    rw [readAuth, hnone]
    rfl
  · have htaken := h.taken a
    rw [onData_auth _ a h.listeners_eq, onAuth, readAuth, nextChunk, ← repliesOf_taken s a]
    simp only
    cases ha : parseAuth a with
    | none =>
        simp only [afterHandlers]
        exact outcome_dead ((s.taken a).write [0x01, 0x01]).endSocket [.wrote [0x01, 0x01], .ended]
          htaken (by simp [write, endSocket, act]) rfl rfl rfl arrivals
    | some credentials =>
        simp only [verdictOn]
        by_cases hopts : opts.authenticate = true
        · rw [if_pos hopts, if_pos hopts, outcome_authenticate htaken,
            checkOutcome_credentials rfl (by rw [checkResult, if_pos rfl])]
        · have hcheck : ({ s.taken a with
              checks := [⟨some credentials, authInfo (some credentials) info, false⟩] } :
              Socket).Waiting [] [⟨some credentials, authInfo (some credentials) info, false⟩] :=
            ⟨h.flowing, h.alive, h.unpromoted, rfl, rfl⟩
          rw [if_neg hopts, if_neg hopts, afterHandlers, htaken.checks_eq, List.nil_append,
            outcome_check hcheck, checkOutcome_credentials (v := .approves) rfl rfl]

/-- A new socket makes what it reads of the greeting. -/
theorem outcome_greeting (endpoints : SocketInfo) (arrivals : List Arrival) :
    (run (arrive opts verdict) (accepted endpoints) arrivals).outcome =
      (reading opts verdict (socketInfo endpoints) arrivals).outcome := by
  have h : (accepted endpoints).Waiting [.greeting] [] := ⟨rfl, rfl, rfl, rfl, rfl⟩
  refine (outcome_next (f := fun arrivals =>
    (reading opts verdict (socketInfo endpoints) arrivals).outcome) h ?_ (fun _ => rfl)
    (fun g arrivals => ?_) arrivals).trans (Outcome.after_nil _)
  · intro arrivals hnone
    rw [reading, hnone]
    rfl
  · have htaken := h.taken g
    rw [onData_greeting _ g rfl, onGreeting_eq, reading, nextChunk,
      ← repliesOf_taken (accepted endpoints) g]
    simp only
    cases hg : choose g with
    | badVersion =>
        exact outcome_dead ((accepted endpoints).taken g).endSocket [.ended] htaken rfl rfl rfl rfl
          arrivals
    | noAcceptable =>
        exact outcome_dead
          (((accepted endpoints).taken g).write [socksVersion, authNoAcceptable]).endSocket
          [.wrote [socksVersion, authNoAcceptable], .ended] htaken (by simp [write, endSocket, act])
          rfl rfl rfl arrivals
    | userpass =>
        have hauth : ((((accepted endpoints).taken g).write [socksVersion, authUserpass]).onceData
            (.auth (socketInfo endpoints))).Waiting [.auth (socketInfo endpoints)] [] :=
          ⟨rfl, rfl, rfl, rfl, rfl⟩
        refine (outcome_auth hauth arrivals).trans ?_
        simp [Reading.outcome, onceData, write, act, repliesOf]
    | noAuth =>
        by_cases hopts : opts.authenticate = true
        · have hwrote : (((accepted endpoints).taken g).write [socksVersion, authNone]).Waiting
              [] [] := ⟨rfl, rfl, rfl, rfl, rfl⟩
          rw [if_pos hopts, if_pos hopts]
          refine (outcome_authenticate hwrote none _ arrivals).trans ?_
          have hcheck : checkOutcome verdict ⟨none, authInfo none (socketInfo endpoints), true⟩ none
              arrivals = _ := checkOutcome_noAuth verdict rfl rfl arrivals
          refine (congrArg _ hcheck).trans ?_
          simp [Reading.outcome, write, act, repliesOf]
        · have hrequest : (((accepted endpoints).taken g).write
              [socksVersion, authNone]).handleRequest.Waiting [.request] [] :=
            ⟨rfl, rfl, rfl, rfl, rfl⟩
          rw [if_neg hopts, if_neg hopts]
          refine (outcome_request opts verdict hrequest arrivals).trans ?_
          simp [Reading.outcome, handleRequest, onceData, resume, write, act, repliesOf]
          rfl

end Socket

/-! ## Segmentation -/

/-- **The outcome of a conversation is that of its reading.** -/
theorem converse_eq (opts : Options) (verdict : AuthInfo → Verdict) (endpoints : SocketInfo)
    (arrivals : List Arrival) :
    converse opts verdict endpoints arrivals =
      (reading opts verdict (socketInfo endpoints) arrivals).outcome :=
  Socket.outcome_greeting endpoints arrivals

/-- **A conversation whose messages arrive in chunks has the outcome of the one in which
each message is one chunk exactly if both are read alike.** `messages` has the arrivals of
each message: its chunks, in any number, with settlements anywhere among them. -/
theorem segmentation_iff (opts : Options) (verdict : AuthInfo → Verdict) (endpoints : SocketInfo)
    (messages : List (List Arrival)) :
    converse opts verdict endpoints messages.flatten =
        converse opts verdict endpoints (messages.map whole).flatten ↔
      (reading opts verdict (socketInfo endpoints) messages.flatten).Agrees
        (reading opts verdict (socketInfo endpoints) (messages.map whole).flatten) := by
  rw [converse_eq, converse_eq]
  exact Reading.outcome_eq_iff

/-- The request is read from the first of the chunks that arrive in a row. -/
theorem readRequest_chunks {chunks : List Bytes} {address : Address} :
    readRequest (chunks.map .chunk) = .connect address ↔
      ∃ d, chunks.head? = some d ∧ d[1]? = some cmdConnect ∧ parseAddress d = some address := by
  cases chunks with
  | nil => simp [readRequest, nextChunk]
  | cons d chunks =>
      rw [List.map_cons, readRequest, nextChunk]
      by_cases hcmd : d[1]? = some cmdConnect
      · cases haddress : parseAddress d <;> simp [hcmd, haddress]
      · simp [hcmd]

/-- **A client without credentials on a server without `authenticate`.** A cut of its greeting
and its request is harmless exactly if the first chunk already selects the method and the
chunk after it is a request for the same address, whatever message that chunk is of. -/
theorem segmentation_noAuth_iff (verdict : AuthInfo → Verdict) (endpoints : SocketInfo)
    (g r : Bytes) (gs rs : List Bytes) {address : Address}
    (hgreeting : choose (g :: gs).flatten = .noAuth)
    (hrequest : (r :: rs).flatten[1]? = some cmdConnect)
    (haddress : parseAddress (r :: rs).flatten = some address) :
    converse ⟨false⟩ verdict endpoints ((g :: gs).map .chunk ++ (r :: rs).map .chunk) =
        converse ⟨false⟩ verdict endpoints
          [.chunk (g :: gs).flatten, .chunk (r :: rs).flatten] ↔
      choose g = .noAuth ∧ ∃ d, (gs ++ r :: rs).head? = some d ∧
        d[1]? = some cmdConnect ∧ parseAddress d = some address := by
  have hwhole : reading ⟨false⟩ verdict (socketInfo endpoints)
      [.chunk (g :: gs).flatten, .chunk (r :: rs).flatten] = .noAuth (.connect address) := by
    simp only [reading, nextChunk, hgreeting, readRequest, hrequest, haddress]
    rfl
  have hcut : reading ⟨false⟩ verdict (socketInfo endpoints)
      ((g :: gs).map .chunk ++ (r :: rs).map .chunk) =
        match choose g with
        | .badVersion => .silent
        | .noAcceptable => .noAcceptable
        | .userpass => .userpass (readAuth ⟨false⟩ verdict (socketInfo endpoints)
            ((gs ++ r :: rs).map .chunk))
        | .noAuth => .noAuth (readRequest ((gs ++ r :: rs).map .chunk)) := by
    rw [List.map_append]
    rfl
  rw [converse_eq, converse_eq, Reading.outcome_eq_iff, hwhole, hcut]
  cases choose g with
  | noAuth =>
      rw [eq_self_iff_true, true_and]
      exact readRequest_chunks
  | badVersion | userpass | noAcceptable => simp [Reading.Agrees]

/-- What arrives after the settlement that chunks in a row wait for. -/
theorem afterSettle_chunks (chunks : List Bytes) (arrivals : List Arrival) :
    afterSettle (chunks.map .chunk ++ .settle :: arrivals) = some arrivals := by
  induction chunks with
  | nil => rfl
  | cons chunk chunks ih => exact ih

/-- **A client without credentials that `authenticate` admits.** A cut of its greeting and its
request is harmless exactly if the first chunk already selects the method and the first chunk
after the check is a request for the same address. -/
theorem segmentation_authenticate_iff (verdict : AuthInfo → Verdict) (endpoints : SocketInfo)
    (g r : Bytes) (gs rs : List Bytes) {address : Address}
    (hgreeting : choose (g :: gs).flatten = .noAuth)
    (hverdict : verdict (authInfo none (socketInfo endpoints)) = .approves)
    (hrequest : (r :: rs).flatten[1]? = some cmdConnect)
    (haddress : parseAddress (r :: rs).flatten = some address) :
    converse ⟨true⟩ verdict endpoints ((g :: gs).map .chunk ++ .settle :: (r :: rs).map .chunk) =
        converse ⟨true⟩ verdict endpoints
          [.chunk (g :: gs).flatten, .settle, .chunk (r :: rs).flatten] ↔
      choose g = .noAuth ∧ r[1]? = some cmdConnect ∧ parseAddress r = some address := by
  have hwhole : reading ⟨true⟩ verdict (socketInfo endpoints)
      [.chunk (g :: gs).flatten, .settle, .chunk (r :: rs).flatten] =
        .noAuth (.connect address) := by
    simp only [reading, nextChunk, hgreeting, hverdict, readVerdictNoAuth, afterSettle,
      readRequest, hrequest, haddress]
    rfl
  have hcut : reading ⟨true⟩ verdict (socketInfo endpoints)
      ((g :: gs).map .chunk ++ .settle :: (r :: rs).map .chunk) =
        match choose g with
        | .badVersion => .silent
        | .noAcceptable => .noAcceptable
        | .userpass => .userpass (readAuth ⟨true⟩ verdict (socketInfo endpoints)
            (gs.map .chunk ++ .settle :: (r :: rs).map .chunk))
        | .noAuth => .noAuth (readRequest ((r :: rs).map .chunk)) := by
    rw [List.map_cons, List.cons_append, reading, nextChunk]
    cases hchoice : choose g with
    | noAuth => simp only [hchoice, hverdict, readVerdictNoAuth, afterSettle_chunks, if_pos]
    | badVersion | userpass | noAcceptable => simp only [hchoice]
  rw [converse_eq, converse_eq, Reading.outcome_eq_iff, hwhole, hcut]
  cases choose g with
  | noAuth =>
      rw [eq_self_iff_true, true_and]
      refine readRequest_chunks.trans ?_
      simp
  | badVersion | userpass | noAcceptable => simp [Reading.Agrees]

/-- The auth message is read from the first of the chunks before the check, and the request from
the first behind it. -/
theorem readAuth_chunks {opts : Options} {verdict : AuthInfo → Verdict} {info : SocketInfo}
    (d r : Bytes) (chunks rs : List Bytes) {credentials : Credentials} {address : Address}
    (hverdict : verdictOn opts verdict (authInfo (some credentials) info) = .approves) :
    (readAuth opts verdict info
        ((d :: chunks).map .chunk ++ .settle :: (r :: rs).map .chunk)).Agrees
          (.approved credentials (.connect address)) ↔
      parseAuth d = some credentials ∧ r[1]? = some cmdConnect ∧
        parseAddress r = some address := by
  rw [List.map_cons, List.cons_append, readAuth, nextChunk]
  cases hauth : parseAuth d with
  | none => simp [hauth, AuthReading.Agrees]
  | some credentials' =>
      simp only [hauth, Option.some.injEq]
      cases hverdict' : verdictOn opts verdict (authInfo (some credentials') info) with
      | approves =>
          have hrequest : readRequest ((r :: rs).map .chunk) = .connect address ↔
              r[1]? = some cmdConnect ∧ parseAddress r = some address :=
            readRequest_chunks.trans (by simp)
          simp only [readVerdict, afterSettle_chunks, AuthReading.Agrees]
          constructor
          · rintro ⟨hread, hsame⟩
            exact ⟨hsame _ hread, hrequest.mp hread⟩
          · rintro ⟨rfl, hread⟩
            exact ⟨hrequest.mpr hread, fun _ _ => rfl⟩
      | denies | rejects | throws =>
          have hne : credentials' ≠ credentials := by
            rintro rfl
            rw [hverdict] at hverdict'
            cases hverdict'
          simp [readVerdict, afterSettle_chunks, AuthReading.Agrees, hne]

/-- **A client with credentials that are approved.** A cut of its messages is harmless exactly if
the first chunk already selects the method, the chunk after it, whatever message that is of, has
the same credentials, and the first chunk after the check is a request for the same address. -/
theorem segmentation_userpass_iff (opts : Options) (verdict : AuthInfo → Verdict)
    (endpoints : SocketInfo) (g a r : Bytes) (gs as rs : List Bytes) {credentials : Credentials}
    {address : Address} (hgreeting : choose (g :: gs).flatten = .userpass)
    (hauth : parseAuth (a :: as).flatten = some credentials)
    (hverdict : verdictOn opts verdict
      (authInfo (some credentials) (socketInfo endpoints)) = .approves)
    (hrequest : (r :: rs).flatten[1]? = some cmdConnect)
    (haddress : parseAddress (r :: rs).flatten = some address) :
    converse opts verdict endpoints
        ((g :: gs).map .chunk ++ (a :: as).map .chunk ++ .settle :: (r :: rs).map .chunk) =
        converse opts verdict endpoints
          [.chunk (g :: gs).flatten, .chunk (a :: as).flatten, .settle,
            .chunk (r :: rs).flatten] ↔
      choose g = .userpass ∧
        (∃ d, (gs ++ a :: as).head? = some d ∧ parseAuth d = some credentials) ∧
        r[1]? = some cmdConnect ∧ parseAddress r = some address := by
  have hwhole : reading opts verdict (socketInfo endpoints)
      [.chunk (g :: gs).flatten, .chunk (a :: as).flatten, .settle, .chunk (r :: rs).flatten] =
        .userpass (.approved credentials (.connect address)) := by
    simp only [reading, nextChunk, hgreeting, readAuth, hauth, hverdict, readVerdict,
      afterSettle, readRequest, hrequest, haddress]
    rfl
  rw [converse_eq, converse_eq, Reading.outcome_eq_iff, hwhole, ← List.map_append,
    List.cons_append, List.map_cons, List.cons_append, reading, nextChunk]
  obtain ⟨d, chunks, hchunks⟩ : ∃ d chunks, gs ++ a :: as = d :: chunks := by
    cases gs with
    | nil => exact ⟨_, _, rfl⟩
    | cons => exact ⟨_, _, rfl⟩
  rw [hchunks]
  cases hchoice : choose g with
  | userpass =>
      simp only [hchoice, Reading.Agrees]
      refine (readAuth_chunks d r chunks rs hverdict).trans ?_
      simp
  | noAuth =>
      simp only [hchoice]
      split_ifs <;> simp [Reading.Agrees]
  | badVersion | noAcceptable => simp [hchoice, Reading.Agrees]

/-- **A greeting that arrives in two chunks is refused.** -/
theorem segmentation_refused :
    let someClient : SocketInfo := ⟨some "10.0.0.1", some 4001, some "10.0.0.9", some 1080⟩
    let messages : List (List Arrival) :=
      [[.chunk [5], .chunk [1, 0]], [.chunk [5, 1, 0, 1, 127, 0, 0, 1, 0, 80]]]
    converse ⟨false⟩ (fun _ => .approves) someClient messages.flatten = ⟨[[5, 0xFF]], []⟩ ∧
      converse ⟨false⟩ (fun _ => .approves) someClient (messages.map whole).flatten =
        ⟨[[5, 0]], [(⟨"127.0.0.1", 80, 1⟩, none)]⟩ := by
  decide

end Proxinator.Socks5
