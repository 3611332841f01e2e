import Proxinator.Socks5.Agreement

/-!
# The completion of a SOCKS5 session

In an orderly session every message arrives as a whole and finds the server waiting for it,
`authenticate` admits the client and the user binds the connection; in which order the rest
happens is left open. Such a session can always be brought to its end, and there the client is
connected exactly when the server reads what it sends: when it offers a method that the server
supports, when its credentials, if it is asked for them, have two bytes at least, and when its
request has ten (`connected_iff`). The bounds are what is left of the checks on the length of
the messages.

A message that arrives while a check is pending is lost, and the session hangs then; such a
session is not orderly.

## Main definitions

* `Session.Orderly` — the steps of an orderly session.
* `Session.Finished` — nothing is left to be done.
* `Session.OnCourse` — the invariant of an orderly session.

## Main result

* `connected_iff` — which orderly sessions complete.
-/

namespace Proxinator.Socks5

open Lib

namespace Client

/-- The server reads the credentials of a whole message, which has five bytes at least. -/
theorem parseAuth_message (c : Client) :
    parseAuth c.message =
      if 2 ≤ c.username.length + c.password.length then
        some ⟨utf8Decode c.username, utf8Decode c.password⟩
      else none := by
  split_ifs with hlength
  · have hparse := Socks5.parseAuth_message 0x01 [] c.username_fits c.password_fits hlength
    rwa [List.append_nil] at hparse
  · have hshort : c.message.length < 5 := by
      simp [message, prefixed]
      omega
    rw [Socks5.parseAuth]
    simp [hshort]

theorem parseAddress_request (c : Client) :
    parseAddress c.request =
      if minRequestSize ≤ c.destination.requestLength then some c.address else none := by
  have hparse := Socks5.parseAddress_request c.destination c.port []
  rwa [List.append_nil] at hparse

/-- The server can choose a method, and read the credentials if it asks for them. -/
def Welcome (c : Client) : Prop :=
  c.Served ∧ (c.identified → 2 ≤ c.username.length + c.password.length)

theorem length_message_pos (c : Client) : 0 < c.message.length := by
  simp [message]

theorem length_request_pos (c : Client) : 0 < c.request.length := by
  simp [request, Socks5.request]

end Client

/-- How much of the handshake the client has before it. -/
def Stage.left : Stage → ℕ
  | .method => 3
  | .status => 2
  | .reply => 1
  | .connected | .failed => 0

namespace Session

variable {opts : Options} {c : Client} {endpoints : SocketInfo} {s : Session}

/-- A step of an orderly session: a message arrives whole, once no check is pending, and
`authenticate` answers it; the check admits the client; the connection is bound, once. -/
def Orderly (s : Session) : Event → Prop
  | .deliver n answer =>
    s.Admits (.deliver n answer) ∧
      (.pipe ∉ s.socket.dataListeners → s.taken + n = s.sent.length) ∧
      s.socket.checks = [] ∧ ∀ info, answer info = .returns
  | .server (.settle _ result) => result = .fulfilled true
  | .server .bind => .pipe ∉ s.socket.dataListeners
  | .server _ => False
  | _ => True

/-- Nothing is left to be done: all that was sent has arrived, no check is pending, a connection
is bound, and the client has nothing to read. -/
def Finished (c : Client) (s : Session) : Prop :=
  s.taken = s.sent.length ∧ s.socket.checks = [] ∧
    (s.socket.promoted ≠ [] → .pipe ∈ s.socket.dataListeners) ∧ s.receive c = s

theorem Orderly.admits {e : Event} (h : s.Orderly e) : s.Admits e ∧ s.Whole e := by
  cases e with
  | deliver n answer =>
      obtain ⟨hadm, hall, hchecks, -⟩ := h
      refine ⟨hadm, fun hlisteners => Or.inl (hall ?_), fun hne => absurd hchecks hne⟩
      rw [hlisteners]
      decide
  | server e =>
      refine ⟨fun chunk answer heq => ?_, trivial⟩
      rw [heq] at h
      exact h
  | receive | send => exact ⟨trivial, trivial⟩

/-! ## What the client reads -/

@[simp] theorem receive_socket (s : Session) : (s.receive c).socket = s.socket := by
  rw [receive]
  repeat' split
  all_goals rfl

@[simp] theorem receive_taken (s : Session) : (s.receive c).taken = s.taken := by
  rw [receive]
  repeat' split
  all_goals rfl

/-- A reply that is read takes the client on. -/
theorem left_receive (s : Session) :
    s.receive c = s ∨ (s.receive c).stage.left < s.stage.left := by
  rw [receive]
  split
  next hstage _ =>
    right
    rw [hstage]
    split_ifs <;> simp [proceed, Stage.left]
  next hstage _ =>
    right
    rw [hstage]
    split_ifs <;> simp [proceed, Stage.left]
  next hstage _ =>
    right
    rw [hstage]
    split_ifs <;> simp [proceed, Stage.left]
  next => exact Or.inl rfl

/-- The selection of a method is read. -/
theorem receive_selection (hserved : c.Served) (hstage : s.stage = .method) {rest : Bytes}
    (harrived : s.arrived = c.selection ++ rest) :
    s.receive c = if c.identified then s.proceed .status c.message 2
      else s.proceed .reply c.request 2 := by
  by_cases huser : c.identified
  · have hmem : authUserpass ∈ c.methods := huser
    rw [Client.selection, if_pos huser] at harrived
    rw [receive_method hstage harrived, if_pos ⟨rfl, hmem⟩, if_pos huser]
  · have hnone : authNone ∈ c.methods := hserved.resolve_left huser
    rw [Client.selection, if_neg huser] at harrived
    rw [receive_method hstage harrived, if_neg fun hand => huser hand.2, if_pos ⟨rfl, hnone⟩,
      if_neg huser]

/-- **A client that is let on reads what it is sent**: every reply takes it on, until it waits for
the reply to its request or is connected. -/
theorem receive_granted {closing : Prop} {rest : List Bytes} (hserved : c.Served)
    (hreplies : repliesOf s.socket.log = c.granted ++ rest)
    (hrest : rest = [] ∨ rest = [buildReply 0x00])
    (hclient : At c closing s.stage (repliesOf s.socket.log) s.sent s.read) :
    s.stage = .failed ∨ s.stage = .connected ∨
      s.stage = .reply ∧ rest = [] ∧ s.receive c = s ∨
      (s.receive c).stage ≠ .failed ∧ (s.receive c).stage ≠ s.stage := by
  have hproceed : ∀ {stage stage' : Stage} {message : Bytes} {read : ℕ}, s.stage = stage →
      s.receive c = s.proceed stage' message read → stage' ≠ .failed → stage' ≠ stage →
      (s.receive c).stage ≠ .failed ∧ (s.receive c).stage ≠ s.stage := by
    intro stage stage' message read hstage heq hfailed hne
    rw [heq, hstage]
    exact ⟨hfailed, hne⟩
  have harrived : s.arrived = (c.granted ++ rest).flatten.drop s.read := by
    rw [arrived, hreplies]
  cases hstage : s.stage with
  | connected => exact Or.inr (Or.inl rfl)
  | failed => exact Or.inl rfl
  | method =>
      have hread : s.read = 0 := by
        rw [hstage] at hclient
        generalize repliesOf s.socket.log = replies, s.sent = sent, s.read = read at hclient ⊢
        cases hclient with
        | method => rfl
      obtain ⟨more, hmore⟩ : ∃ more, s.arrived = c.selection ++ more := by
        rw [harrived, hread, List.drop_zero, Client.granted]
        split_ifs
        · exact ⟨_, rfl⟩
        · exact ⟨_, rfl⟩
      have heq := receive_selection hserved hstage hmore
      rw [← hstage]
      split_ifs at heq
      · exact Or.inr (Or.inr (Or.inr (hproceed hstage heq (by decide) (by decide))))
      · exact Or.inr (Or.inr (Or.inr (hproceed hstage heq (by decide) (by decide))))
  | status =>
      obtain ⟨huser, hread⟩ : c.identified ∧ s.read = 2 := by
        rw [hstage] at hclient
        generalize repliesOf s.socket.log = replies, s.sent = sent, s.read = read at hclient ⊢
        cases hclient with
        | status huser => exact ⟨huser, rfl⟩
      have hmore : s.arrived = 0x01 :: 0x00 :: rest.flatten := by
        rw [harrived, hread, Client.granted, if_pos huser, Client.selection, if_pos huser]
        rfl
      have heq : s.receive c = s.proceed .reply c.request 2 := by
        simp only [receive, hstage, hmore, if_pos]
      rw [← hstage]
      exact Or.inr (Or.inr (Or.inr (hproceed hstage heq (by decide) (by decide))))
  | reply =>
      have hread : s.read = c.granted.flatten.length := by
        rw [hstage] at hclient
        generalize repliesOf s.socket.log = replies, s.sent = sent, s.read = read at hclient ⊢
        cases hclient with
        | reply => rfl
      rw [hread, List.flatten_append, List.drop_left] at harrived
      rcases hrest with rfl | rfl
      · refine Or.inr (Or.inr (Or.inl ⟨rfl, rfl, ?_⟩))
        rw [receive, hstage, harrived]
        rfl
      · have heq : s.receive c = s.proceed .connected [] 10 := by
          rw [receive, hstage, harrived]
          rfl
        rw [← hstage]
        exact Or.inr (Or.inr (Or.inr (hproceed hstage heq (by decide) (by decide))))

/-! ## The invariant -/

/-- **An orderly session is on course**: the server has taken the whole introduction of a client
whose request it waits for, it refuses only a client that it cannot read, and one that it has
made a connection of was sent no reply but the success. -/
structure OnCourse (c : Client) (s : Session) : Prop where
  alive : s.socket.destroyed = false
  taken_le : s.taken ≤ s.sent.length
  introduced : s.socket.checks ≠ [] ∨ .request ∈ s.socket.dataListeners →
    c.Welcome ∧ s.taken = c.introduction.length
  refused : s.socket.dataListeners = [] → s.socket.checks = [] → s.socket.promoted = [] →
    ¬ (c.Welcome ∧ minRequestSize ≤ c.destination.requestLength)
  promoted : s.socket.promoted ≠ [] →
    (c.Welcome ∧ minRequestSize ≤ c.destination.requestLength) ∧ s.stage ≠ .failed ∧
      repliesOf s.socket.log = c.granted ++
        if .pipe ∈ s.socket.dataListeners then [buildReply 0x00] else []

theorem onCourse_new (c : Client) (endpoints : SocketInfo) : OnCourse c (new c endpoints) := by
  constructor <;> simp [new, Socket.accepted]

/-- A socket whose listener or check is still to come. -/
theorem onCourse_waiting {socket : Socket} {taken : ℕ}
    (halive : socket.destroyed = false) (htaken : taken ≤ s.sent.length)
    (hwaits : socket.dataListeners ≠ [] ∨ socket.checks ≠ []) (hpromoted : socket.promoted = [])
    (hintroduced : socket.checks ≠ [] ∨ .request ∈ socket.dataListeners →
      c.Welcome ∧ taken = c.introduction.length) :
    OnCourse c { s with socket := socket, taken := taken } where
  alive := halive
  taken_le := htaken
  introduced := hintroduced
  refused hlisteners hchecks _ :=
    hwaits.elim (fun hne => absurd hlisteners hne) fun hne => absurd hchecks hne
  promoted hne := absurd hpromoted hne

/-- A socket that is refused. -/
theorem onCourse_refused {socket : Socket} {taken : ℕ}
    (halive : socket.destroyed = false) (htaken : taken ≤ s.sent.length)
    (hlisteners : socket.dataListeners = []) (hchecks : socket.checks = [])
    (hpromoted : socket.promoted = [])
    (hrefused : ¬ (c.Welcome ∧ minRequestSize ≤ c.destination.requestLength)) :
    OnCourse c { s with socket := socket, taken := taken } where
  alive := halive
  taken_le := htaken
  introduced hasks := by
    rw [hlisteners, hchecks] at hasks
    simp at hasks
  refused _ _ _ := hrefused
  promoted hne := absurd hpromoted hne

/-- The greeting arrives. -/
theorem OnCourse.deliver_greeting (h : OnCourse c s) {answer : AuthInfo → Answer}
    (hanswer : ∀ info, answer info = .returns)
    (hlisteners : s.socket.dataListeners = [.greeting]) (hchecks : s.socket.checks = [])
    (hpromoted : s.socket.promoted = []) {taken : ℕ} (htaken : taken = c.greeting.length)
    (hle : taken ≤ s.sent.length) :
    OnCourse c { s with socket := s.socket.onData opts answer c.greeting, taken := taken } := by
  have halive := h.alive
  rw [Socket.onData_greeting answer _ hlisteners, Socket.onGreeting_eq, c.choose_greeting]
  by_cases huser : c.identified
  · rw [if_pos huser]
    refine onCourse_waiting ?_ hle (Or.inl ?_) ?_ ?_
    all_goals simp [Socket.afterHandlers, Socket.taken, Socket.write, Socket.onceData, Socket.act,
      halive, hchecks, hpromoted]
  · have hintroduction : c.introduction = c.greeting := if_neg huser
    rw [if_neg huser]
    by_cases hnone : authNone ∈ c.methods
    · have hintroduced : c.Welcome ∧ taken = c.introduction.length :=
        ⟨⟨Or.inr hnone, fun hyes => absurd hyes huser⟩, by rw [htaken, hintroduction]⟩
      rw [if_pos hnone]
      by_cases hopts : opts.authenticate = true
      · simp only [if_pos hopts, Socket.authenticate, hanswer]
        refine onCourse_waiting ?_ hle (Or.inr ?_) ?_ fun _ => hintroduced
        all_goals simp [Socket.afterHandlers, Socket.taken, Socket.write, Socket.act, halive,
          hpromoted]
      · simp only [if_neg hopts]
        refine onCourse_waiting ?_ hle (Or.inl ?_) ?_ fun _ => hintroduced
        all_goals simp [Socket.afterHandlers, Socket.taken, Socket.write, Socket.act,
          Socket.handleRequest, Socket.onceData, Socket.resume, halive, hpromoted]
    · rw [if_neg hnone]
      refine onCourse_refused ?_ hle ?_ ?_ ?_ fun hand => hand.1.1.elim huser hnone
      all_goals simp [Socket.afterHandlers, Socket.taken, Socket.write, Socket.endSocket,
        Socket.act, halive, hchecks, hpromoted]

/-- The username/password message arrives. -/
theorem OnCourse.deliver_auth (h : OnCourse c s) {answer : AuthInfo → Answer}
    (hanswer : ∀ info, answer info = .returns) (huser : c.identified) {info : SocketInfo}
    (hlisteners : s.socket.dataListeners = [.auth info]) (hchecks : s.socket.checks = [])
    (hpromoted : s.socket.promoted = []) {taken : ℕ} (htaken : taken = c.introduction.length)
    (hle : taken ≤ s.sent.length) :
    OnCourse c { s with socket := s.socket.onData opts answer c.message, taken := taken } := by
  have halive := h.alive
  rw [Socket.onData_auth answer _ hlisteners, Socket.onAuth, c.parseAuth_message]
  by_cases hlength : 2 ≤ c.username.length + c.password.length
  · have hwelcome : c.Welcome := ⟨Or.inl huser, fun _ => hlength⟩
    simp only [if_pos hlength]
    by_cases hopts : opts.authenticate = true
    · simp only [if_pos hopts, Socket.authenticate, hanswer]
      refine onCourse_waiting ?_ hle (Or.inr ?_) ?_ fun _ => ⟨hwelcome, htaken⟩
      all_goals simp [Socket.afterHandlers, Socket.taken, Socket.act, halive, hpromoted]
    · simp only [if_neg hopts]
      refine onCourse_waiting ?_ hle (Or.inr ?_) ?_ fun _ => ⟨hwelcome, htaken⟩
      all_goals simp [Socket.afterHandlers, Socket.taken, halive, hpromoted]
  · simp only [if_neg hlength]
    refine onCourse_refused ?_ hle ?_ ?_ ?_ fun hand => hlength (hand.1.2 huser)
    all_goals simp [Socket.afterHandlers, Socket.taken, Socket.write, Socket.endSocket, Socket.act,
      halive, hchecks, hpromoted]

/-- The request arrives. -/
theorem OnCourse.deliver_request (h : OnCourse c s) {answer : AuthInfo → Answer}
    (hlisteners : s.socket.dataListeners = [.request]) (hchecks : s.socket.checks = [])
    (hpromoted : s.socket.promoted = []) (hreplies : repliesOf s.socket.log = c.granted)
    (hfailed : s.stage ≠ .failed) {taken : ℕ} (hle : taken ≤ s.sent.length) :
    OnCourse c { s with socket := s.socket.onData opts answer c.request, taken := taken } := by
  have halive := h.alive
  have hcmd : c.request[1]? = some cmdConnect := rfl
  have hwelcome := (h.introduced (Or.inr (by simp [hlisteners]))).1
  rw [Socket.onData_request answer _ hlisteners, Socket.onRequest, if_neg (by simp [hcmd]),
    c.parseAddress_request]
  by_cases hmin : minRequestSize ≤ c.destination.requestLength
  · simp only [if_pos hmin]
    refine ⟨halive, hle, ?_, ?_, fun _ => ⟨⟨hwelcome, hmin⟩, hfailed, ?_⟩⟩
    · simp [Socket.promote, Socket.taken, Socket.act, hchecks]
    · simp [Socket.promote, Socket.taken, Socket.act]
    · simp [Socket.promote, Socket.taken, Socket.act, repliesOf, hreplies]
  · simp only [if_neg hmin]
    refine onCourse_refused ?_ hle ?_ ?_ ?_ fun hand => hmin hand.2
    all_goals simp [Socket.taken, Socket.write, Socket.endSocket, Socket.act, halive, hchecks,
      hpromoted]

/-- A chunk that is not of the handshake. -/
theorem OnCourse.pass (h : OnCourse c s) {extra : List Action} {taken : ℕ}
    (hasks : ¬ (s.socket.checks ≠ [] ∨ .request ∈ s.socket.dataListeners))
    (hreplies : repliesOf extra = []) (hle : taken ≤ s.sent.length) :
    OnCourse c
      { s with socket := { s.socket with log := s.socket.log ++ extra }, taken := taken } where
  alive := h.alive
  taken_le := hle
  introduced hask := absurd hask hasks
  refused := h.refused
  promoted hne := by
    obtain ⟨hcompletes, hfailed, hlog⟩ := h.promoted hne
    refine ⟨hcompletes, hfailed, ?_⟩
    rw [repliesOf_append, hreplies, List.append_nil]
    exact hlog

/-- **A message that arrives whole keeps the session on course.** -/
theorem OnCourse.deliver (h : OnCourse c s) (hjoint : Joint opts c endpoints s) {n : ℕ}
    {answer : AuthInfo → Answer} (horderly : s.Orderly (.deliver n answer)) :
    OnCourse c (s.step opts c (.deliver n answer)) := by
  obtain ⟨⟨hn, hsent, halive⟩, hwhole, hnone, hanswer⟩ := horderly
  have hphase := hjoint.phase
  have hclient := hjoint.client
  rw [Over] at hclient
  rw [step, Socket.step, hjoint.inv.flowing, halive, if_neg (by simp)]
  generalize hlisteners : s.socket.dataListeners = listeners at hphase hclient hwhole
  generalize hchecks : s.socket.checks = checks at hphase hclient hnone
  generalize hauth : s.socket.auth = auth at hphase
  generalize hpromoted : s.socket.promoted = promoted at hphase hclient
  generalize hreplies : repliesOf s.socket.log = replies at hphase hclient
  generalize htaken : s.taken = taken at hphase hsent hwhole ⊢
  have hlost : listeners = [] → OnCourse c
      { s with socket := s.socket.onData opts answer (s.chunk n), taken := taken + n } := by
    intro hnil
    rw [Socket.onData, if_pos (hlisteners.trans hnil)]
    exact h.pass (by simp [hlisteners, hnil, hchecks, hnone]) rfl hsent
  cases hphase with
  | greeting =>
      have hall := hwhole (by decide)
      rcases hclient.sent_cases (by simp) List.nil_prefix with hs | ⟨-, hne, -⟩ | ⟨hgranted, -⟩
      · have hchunk : s.chunk n = c.greeting := by
          rw [chunk, htaken, hs, List.drop_zero, List.take_of_length_le]
          rw [← hs]
          omega
        rw [hchunk]
        exact h.deliver_greeting hanswer hlisteners hchecks hpromoted (by rw [hall, hs]) hsent
      · exact absurd rfl hne
      · rw [Client.granted] at hgranted
        split_ifs at hgranted
  | auth huser =>
      have hall := hwhole (by simp)
      have hgranted : c.granted = [c.selection, [0x01, 0x00]] := if_pos huser
      have hintroduction : c.introduction = c.greeting ++ c.message := if_pos huser
      rcases hclient.sent_cases (by simp) (by simp [hgranted]) with hs | ⟨-, -, hs⟩ | ⟨heq, -⟩
      · rw [hs] at hsent
        omega
      · have hchunk : s.chunk n = c.message := by
          rw [chunk, htaken, hs, hintroduction, List.drop_left, List.take_of_length_le]
          rw [hs, hintroduction, List.length_append] at hall
          omega
        rw [hchunk]
        exact h.deliver_auth hanswer huser hlisteners hchecks hpromoted (by rw [hall, hs]) hsent
      · rw [hgranted] at heq
        cases heq
  | checking => cases hnone
  | request hserved =>
      have hall := hwhole (by decide)
      have hintroduced := (h.introduced (Or.inr (by simp [hlisteners]))).2
      have hle := length_greeting_le c
      have hfailed : s.stage ≠ .failed := by
        intro hstage
        rw [hstage] at hclient
        cases hclient with
        | failed hclosing => simp at hclosing
      rcases hclient.sent_cases (by simp) List.prefix_rfl with hs | ⟨-, -, hs⟩ | ⟨-, hs⟩
      · rw [hs] at hsent
        omega
      · rw [hs] at hsent
        omega
      · have hchunk : s.chunk n = c.request := by
          rw [hs, List.length_append] at hall
          rw [chunk, hs, hintroduced, List.drop_left, List.take_of_length_le]
          omega
        rw [hchunk]
        exact h.deliver_request hlisteners hchecks hpromoted hreplies hfailed hsent
  | promoted hserved listeners hpipe =>
      by_cases hnil : listeners = []
      · exact hlost hnil
      · have hnot : DataListener.request ∉ listeners := fun hmem => by cases hpipe _ hmem
        rw [Socket.onData_pipe answer _ (hlisteners ▸ hpipe) (hlisteners ▸ hnil)]
        exact h.pass (by simp [hlisteners, hchecks, hnot]) (repliesOf_piped _ _) hsent
  | refused => exact hlost rfl

/-- **What happens at the server keeps the session on course.** -/
theorem OnCourse.server (h : OnCourse c s) (hjoint : Joint opts c endpoints s) {e : Socks5.Event}
    (horderly : s.Orderly (.server e)) : OnCourse c (s.step opts c (.server e)) := by
  have hphase := hjoint.phase
  rw [step]
  cases e with
  | data | handshakeTimeout | error | close | refuse | «end» | destroy => exact horderly.elim
  | settle i result =>
      have hresult : result = .fulfilled true := horderly
      subst hresult
      rw [Socket.step, Socket.onSettle]
      split
      next => exact h
      next check hcheck =>
        have hne : s.socket.checks ≠ [] := by
          intro hnil
          rw [hnil] at hcheck
          simp at hcheck
        obtain ⟨hwelcome, htaken⟩ := h.introduced (Or.inl hne)
        have hpromoted : s.socket.promoted = [] := by
          generalize s.socket.dataListeners = listeners, s.socket.checks = checks,
            s.socket.auth = auth, s.socket.promoted = promoted,
            repliesOf s.socket.log = replies, s.taken = taken at hphase hne ⊢
          cases hphase with
          | checking => rfl
          | greeting | auth | request | promoted | refused => exact absurd rfl hne
        have halive := h.alive
        cases hcredentials : check.credentials <;> cases hasked : check.asked <;>
          refine onCourse_waiting ?_ h.taken_le (Or.inl ?_) ?_ fun _ => ⟨hwelcome, htaken⟩ <;>
          simp [Socket.onSettled, hcredentials, Socket.handleRequest, Socket.onceData,
            Socket.resume, Socket.write, Socket.act, halive, hpromoted]
  | bind =>
      have hpipe : .pipe ∉ s.socket.dataListeners := horderly
      rw [Socket.step]
      split_ifs with hnil
      · exact h
      · obtain ⟨hcompletes, hfailed, hreplies⟩ := h.promoted hnil
        rw [if_neg hpipe, List.append_nil] at hreplies
        refine ⟨h.alive, h.taken_le, ?_, ?_, fun _ => ⟨hcompletes, hfailed, ?_⟩⟩
        · intro hask
          refine h.introduced (hask.imp id fun hmem => ?_)
          simpa [Socket.bind, Socket.write, Socket.act] using hmem
        · simp [Socket.bind]
        · simp [Socket.bind, Socket.write, Socket.act, repliesOf, hreplies]

/-- **What the client reads keeps the session on course.** -/
theorem OnCourse.receive (h : OnCourse c s) (hjoint : Joint opts c endpoints s) :
    OnCourse c (s.receive c) where
  alive := by
    rw [receive_socket]
    exact h.alive
  taken_le := by
    have hsent : s.sent <+: (s.receive c).sent := by
      rw [Session.receive]
      repeat' split
      all_goals first | exact List.prefix_append _ _ | exact List.prefix_rfl
    rw [receive_taken]
    exact h.taken_le.trans hsent.length_le
  introduced := by
    rw [receive_socket, receive_taken]
    exact h.introduced
  refused := by
    rw [receive_socket]
    exact h.refused
  promoted := by
    rw [receive_socket]
    intro hne
    obtain ⟨hcompletes, hfailed, hreplies⟩ := h.promoted hne
    refine ⟨hcompletes, ?_, hreplies⟩
    have hrest : (if .pipe ∈ s.socket.dataListeners then [buildReply 0x00] else []) = [] ∨
        (if .pipe ∈ s.socket.dataListeners then [buildReply 0x00] else []) =
          [buildReply 0x00] := by
      split_ifs
      · exact Or.inr rfl
      · exact Or.inl rfl
    rcases receive_granted hcompletes.1.1 hreplies hrest hjoint.client with
      hstage | hstage | ⟨-, -, heq⟩ | ⟨hnot, -⟩
    · exact absurd hstage hfailed
    · rw [Session.receive, hstage]
      rw [hstage]
      decide
    · rwa [heq]
    · exact hnot

/-- What a connected client sends keeps the session on course. -/
theorem OnCourse.send (h : OnCourse c s) (data : Bytes) :
    OnCourse c (s.step opts c (.send data)) := by
  rw [step]
  split_ifs
  · refine ⟨h.alive, ?_, h.introduced, h.refused, h.promoted⟩
    rw [List.length_append]
    exact Nat.le_add_right_of_le h.taken_le
  · exact h

/-- An orderly step. -/
theorem OnCourse.step (h : OnCourse c s) (hjoint : Joint opts c endpoints s) {e : Event}
    (horderly : s.Orderly e) : OnCourse c (s.step opts c e) := by
  cases e with
  | deliver => exact h.deliver hjoint horderly
  | server => exact h.server hjoint horderly
  | receive => exact h.receive hjoint
  | send data => exact h.send data

/-- **An orderly session stays on course.** -/
theorem onCourse_run {events : List Event}
    (h : Along (step opts c) Orderly (new c endpoints) events) :
    Joint opts c endpoints (run (step opts c) (new c endpoints) events) ∧
      OnCourse c (run (step opts c) (new c endpoints) events) := by
  refine h.invariant (P := fun s => Joint opts c endpoints s ∧ OnCourse c s)
    (fun s e horderly hs => ?_) ⟨joint_new opts c endpoints, onCourse_new c endpoints⟩
  exact ⟨hs.1.step horderly.admits, hs.2.step hs.1 horderly⟩

/-! ## The end of a session -/

/-- While the server waits for a message, the client has something to read or has sent it. -/
theorem OnCourse.not_finished (h : OnCourse c s) (hjoint : Joint opts c endpoints s)
    {listener : DataListener} (hlistener : listener ≠ .pipe)
    (hlisteners : s.socket.dataListeners = [listener]) : ¬ Finished c s := by
  rintro ⟨hall, -, -, hread⟩
  have hphase := hjoint.phase
  have hclient := hjoint.client
  have hpromoted : s.socket.promoted = [] := by
    rw [hlisteners] at hphase
    generalize s.socket.checks = checks, s.socket.auth = auth, s.socket.promoted = promoted,
      repliesOf s.socket.log = replies, s.taken = taken at hphase ⊢
    cases hphase with
    | greeting | auth | request => rfl
    | promoted _ _ hpipe => exact absurd (hpipe listener (by simp)) hlistener
  have hopen : ¬ Over s.socket := by simp [Over, hpromoted, hlisteners]
  rw [hlisteners] at hphase
  generalize hchecks : s.socket.checks = checks at hphase
  generalize s.socket.auth = auth at hphase
  rw [hpromoted] at hphase
  generalize hreplies : repliesOf s.socket.log = replies at hphase
  generalize htaken : s.taken = taken at hphase hall
  cases hphase with
  | greeting =>
      rw [hreplies] at hclient
      rcases hclient.sent_cases hopen List.nil_prefix with hs | ⟨-, hne, -⟩ | ⟨hgranted, -⟩
      · rw [hs] at hall
        simp [Client.greeting] at hall
      · exact absurd rfl hne
      · rw [Client.granted] at hgranted
        split_ifs at hgranted
  | auth huser =>
      have hpos := c.length_message_pos
      have hintroduction : c.introduction = c.greeting ++ c.message := if_pos huser
      rw [hreplies] at hclient
      cases hstage : s.stage with
      | connected => exact hjoint.promoted_of_connected hstage hpromoted
      | failed =>
          rw [hstage] at hclient
          cases hclient with
          | failed hclosing => exact hopen hclosing
      | method =>
          have hzero : s.read = 0 := by
            rw [hstage] at hclient
            generalize s.sent = sent, s.read = read at hclient ⊢
            cases hclient with
            | method => rfl
          have harrived : s.arrived = c.selection ++ [] := by
            rw [arrived, hreplies, hzero]
            rfl
          rw [receive_selection (Or.inl huser) hstage harrived, if_pos huser] at hread
          have hnext := congrArg Session.stage hread
          rw [hstage] at hnext
          cases hnext
      | status | reply =>
          have hsent : c.introduction.length ≤ s.sent.length := by
            rw [hstage] at hclient
            generalize [c.selection] = replies, s.sent = sent, s.read = read at hclient ⊢
            cases hclient
            all_goals simp
          rw [hintroduction, List.length_append] at hsent
          omega
  | request hserved =>
      have hpos := c.length_request_pos
      have hintroduced := (h.introduced (Or.inr (by simp [hlisteners]))).2
      have hgranted : repliesOf s.socket.log = c.granted ++ [] := by
        rw [hreplies, List.append_nil]
      rcases receive_granted hserved hgranted (Or.inl rfl) hclient with
        hstage | hstage | ⟨hstage, -⟩ | ⟨-, hne⟩
      · rw [hstage] at hclient
        cases hclient with
        | failed hclosing => exact hopen hclosing
      · exact hjoint.promoted_of_connected hstage hpromoted
      · have hsent : s.sent.length = c.introduction.length + c.request.length := by
          rw [hstage] at hclient
          generalize repliesOf s.socket.log = replies, s.sent = sent, s.read = read
            at hclient ⊢
          cases hclient with
          | reply => exact List.length_append
        omega
      · rw [hread] at hne
        exact hne rfl

/-- **A finished session is connected exactly when the server could read it.** -/
theorem OnCourse.stage_eq_connected (h : OnCourse c s) (hjoint : Joint opts c endpoints s)
    (hfinished : Finished c s) :
    s.stage = .connected ↔ c.Welcome ∧ minRequestSize ≤ c.destination.requestLength := by
  by_cases hpromoted : s.socket.promoted = []
  · have hnot : s.stage ≠ .connected :=
      fun hstage => hjoint.promoted_of_connected hstage hpromoted
    have hover : s.socket.dataListeners = [] := by
      have hphase := hjoint.phase
      rw [hfinished.2.1, hpromoted] at hphase
      generalize hlisteners : s.socket.dataListeners = listeners at hphase ⊢
      generalize s.socket.auth = auth, repliesOf s.socket.log = replies, s.taken = taken
        at hphase
      cases hphase with
      | greeting | auth | request =>
          exact absurd hfinished (h.not_finished hjoint (by simp) hlisteners)
      | refused => rfl
    have hrefused := h.refused hover hfinished.2.1 hpromoted
    exact ⟨fun hstage => absurd hstage hnot, fun hcompletes => absurd hcompletes hrefused⟩
  · obtain ⟨hcompletes, hfailed, hreplies⟩ := h.promoted hpromoted
    rw [if_pos (hfinished.2.2.1 hpromoted)] at hreplies
    refine ⟨fun _ => hcompletes, fun _ => ?_⟩
    rcases receive_granted hcompletes.1.1 hreplies (Or.inr rfl) hjoint.client with
      hstage | hstage | ⟨-, hnil, -⟩ | ⟨-, hne⟩
    · exact absurd hstage hfailed
    · exact hstage
    · cases hnil
    · rw [hfinished.2.2.2] at hne
      exact absurd rfl hne

/-! ## Orderly sessions end -/

/-- What is left of a session: the messages of the client, what is under way, a check and a
connection to bind. -/
def left (s : Session) : ℕ :=
  5 * s.stage.left + (if s.taken < s.sent.length then 3 else 0) +
    (if s.socket.checks = [] then 0 else 1) +
    (if s.socket.promoted ≠ [] ∧ .pipe ∉ s.socket.dataListeners then 1 else 0)

theorem left_le (h : s.taken = s.sent.length) : s.left ≤ 5 * s.stage.left + 2 := by
  rw [left, if_neg h.not_lt]
  split_ifs <;> omega

theorem le_left (h : s.taken < s.sent.length) : 5 * s.stage.left + 3 ≤ s.left := by
  rw [left, if_pos h]
  omega

/-- **A session that is not finished has an orderly step before it**, which leaves less. -/
theorem OnCourse.exists_orderly (h : OnCourse c s) (hjoint : Joint opts c endpoints s)
    (hfinished : ¬ Finished c s) : ∃ e, s.Orderly e ∧ (s.step opts c e).left < s.left := by
  by_cases hchecks : s.socket.checks = []
  · by_cases hunder : s.taken < s.sent.length
    · -- a message arrives
      refine ⟨.deliver (s.sent.length - s.taken) fun _ => .returns,
        ⟨⟨by omega, by omega, h.alive⟩, fun _ => by omega, hchecks, fun _ => rfl⟩, ?_⟩
      have hall : s.taken + (s.sent.length - s.taken) = s.sent.length := by omega
      have hle := le_left hunder
      refine Nat.lt_of_le_of_lt (left_le hall) ?_
      simp only [Session.step]
      omega
    · by_cases hbound : s.socket.promoted ≠ [] ∧ .pipe ∉ s.socket.dataListeners
      · -- the connection is bound
        refine ⟨.server .bind, hbound.2, ?_⟩
        simp [left, Session.step, Socket.step, hbound, hunder, hchecks, Socket.bind,
          Socket.write, Socket.act]
      · -- a reply is read
        refine ⟨.receive, trivial, ?_⟩
        have hlt : (s.receive c).stage.left < s.stage.left := by
          refine (left_receive s).resolve_left fun heq => hfinished ?_
          refine ⟨le_antisymm h.taken_le (not_lt.mp hunder), hchecks, fun hne => ?_, heq⟩
          by_contra hpipe
          exact hbound ⟨hne, hpipe⟩
        simp only [left, Session.step, receive_socket, receive_taken, if_neg hunder,
          if_pos hchecks, if_neg hbound]
        split_ifs <;> omega
  · -- the check settles
    refine ⟨.server (.settle 0 (.fulfilled true)), rfl, ?_⟩
    obtain ⟨check, hone, hpromoted⟩ : ∃ check, s.socket.checks = [check] ∧
        s.socket.promoted = [] := by
      have hphase := hjoint.phase
      generalize s.socket.dataListeners = listeners, s.socket.checks = checks,
        s.socket.auth = auth, s.socket.promoted = promoted, repliesOf s.socket.log = replies,
        s.taken = taken at hphase hchecks ⊢
      cases hphase with
      | checking hserved check => exact ⟨check, rfl, rfl⟩
      | greeting | auth | request | promoted | refused => exact absurd rfl hchecks
    cases hcredentials : check.credentials <;> cases hasked : check.asked <;>
      simp [left, Session.step, Socket.step, Socket.onSettle, hone, hasked, Socket.onSettled,
        hcredentials, hpromoted, Socket.handleRequest, Socket.onceData, Socket.resume,
        Socket.write, Socket.act]

/-- **Which orderly sessions complete.** Every orderly session can be brought to its end, and
once it is there the client is connected exactly when the server can choose a method for it, and
reads its credentials and its request; with `authenticate` or without. -/
theorem connected_iff (opts : Options) (c : Client) (endpoints : SocketInfo) (events : List Event)
    (h : Along (step opts c) Orderly (new c endpoints) events) :
    (Finished c (run (step opts c) (new c endpoints) events) →
      ((run (step opts c) (new c endpoints) events).stage = .connected ↔
        c.Welcome ∧ minRequestSize ≤ c.destination.requestLength)) ∧
    ∃ more, Along (step opts c) Orderly (new c endpoints) (events ++ more) ∧
      Finished c (run (step opts c) (new c endpoints) (events ++ more)) := by
  obtain ⟨hjoint, hcourse⟩ := onCourse_run h
  refine ⟨hcourse.stage_eq_connected hjoint, ?_⟩
  obtain ⟨more, hmore, hfinished⟩ := exists_along_of_measure (P := Finished c)
    (Q := fun s => Joint opts c endpoints s ∧ OnCourse c s) left
    (fun s e horderly hs => ⟨hs.1.step horderly.admits, hs.2.step hs.1 horderly⟩)
    (fun s hs hnot => hs.2.exists_orderly hs.1 hnot) ⟨hjoint, hcourse⟩
  refine ⟨more, (along_append _ _).mpr ⟨h, hmore⟩, ?_⟩
  rwa [run_append]

private theorem visitedPort_lt : 8080 < 65536 := by omega

private theorem visitedName_fits : (List.replicate 3 (0x61 : UInt8)).length < 256 := by decide

private theorem noAuthMethod_fits : ([0x00] : Bytes).length < 256 := by decide

/-- A client without credentials, of a server that asks `authenticate` about it. -/
private def visitor : Client where
  methods := [0x00]
  username := []
  password := []
  destination := .ipv4 ⟨93, 184, 216, 34⟩
  port := ⟨8080, visitedPort_lt⟩
  methods_fit := noAuthMethod_fits
  username_fits := nil_fits
  password_fits := nil_fits

private def visitorSocket : SocketInfo := ⟨some "10.0.0.1", some 4001, some "10.0.0.9", some 1080⟩

/-- The client sends its request while the check is pending; it arrives after that. -/
private def visitorEvents : List Event :=
  [.deliver 3 fun _ => .returns, .receive, .server (.settle 0 (.fulfilled true)),
    .deliver 10 fun _ => .returns, .server .bind, .receive]

theorem connected_iff_visitor :
    (run (step ⟨true⟩ visitor) (new visitor visitorSocket) visitorEvents).stage = .connected ↔
      visitor.Welcome ∧ minRequestSize ≤ visitor.destination.requestLength := by
  have horderly : Along (step ⟨true⟩ visitor) Orderly (new visitor visitorSocket)
      visitorEvents := by
    simp [visitorEvents, along_cons, Orderly, Admits]
    decide
  have hfinished : Finished visitor
      (run (step ⟨true⟩ visitor) (new visitor visitorSocket) visitorEvents) := by
    refine ⟨?_, ?_, ?_, ?_⟩ <;> decide
  exact (connected_iff ⟨true⟩ visitor visitorSocket visitorEvents horderly).1 hfinished

/-- A client whose request arrives early. -/
private def hasty : Client where
  methods := [0x00]
  username := []
  password := []
  destination := .domain (List.replicate 3 0x61) visitedName_fits
  port := ⟨8080, visitedPort_lt⟩
  methods_fit := noAuthMethod_fits
  username_fits := nil_fits
  password_fits := nil_fits

/-- A request that arrives before the check settles is lost, and nothing is left to be done. -/
example :
    let s := run (step ⟨true⟩ hasty) (new hasty ⟨none, none, none, none⟩)
      [.deliver 3 fun _ => .returns, .receive, .deliver 10 fun _ => .returns,
        .server (.settle 0 (.fulfilled true))]
    s.taken = s.sent.length ∧ s.receive hasty = s ∧ s.stage = .reply := by
  decide

end Session

end Proxinator.Socks5
