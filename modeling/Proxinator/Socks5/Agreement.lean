import Proxinator.Socks5.Session

/-!
# The parties of a SOCKS5 session agree

The server takes every chunk for a whole message, and yet it never misunderstands its client: a
connection is made of the session only for the destination that the client asks for, with its
credentials, and the client takes the session for connected only if one was made (`agreement`).
The invariant says in which `Phase` the server is, by the replies that it has written, and
where the client is (`At`), by those that it has read.

## Main definitions

* `Phase`, `At` — where the server and the client are.
* `Joint` — how the two parties fit together, the invariant.

## Main results

* `joint_run` — the invariant holds after every run.
* `agreement` — what the parties make of a session is the same.
-/

namespace Proxinator.Socks5

open Lib

/-- A chunk that is piped is answered by no reply. -/
theorem repliesOf_piped (chunk : Bytes) (n : ℕ) :
    repliesOf (.received chunk :: List.replicate n (.piped chunk)) = [] := by
  induction n with
  | zero => rfl
  | succ n ih => exact ih

/-- A quiet step sends no reply. -/
theorem Socket.Quiet.repliesOf_eq {s s' : Socket} (h : Socket.Quiet s s') :
    repliesOf s'.log = repliesOf s.log := by
  obtain ⟨extra, hlog, hextra⟩ := h.log_eq
  have hnone : repliesOf extra = [] := by
    clear hlog
    induction extra with
    | nil => rfl
    | cons action extra ih =>
        have htail := ih fun a ha => hextra a (List.mem_cons_of_mem _ ha)
        rcases hextra action List.mem_cons_self with rfl | ⟨code, connection, rfl⟩
        · exact htail
        · exact htail
  rw [hlog, repliesOf_append, hnone, List.append_nil]

namespace Session

/-! ## How the parties fit together -/

variable {opts : Options} {c : Client} {info : SocketInfo}

/-- How much the server was given before it waits for the request; where the client was not
asked for credentials, the request may have been lost. -/
def Introduced (c : Client) (taken : ℕ) : Prop :=
  taken = c.introduction.length ∨
    ¬ c.identified ∧ taken = (c.introduction ++ c.request).length

/-- The replies to a client that the server has refused, or left alone. -/
inductive Refusal (c : Client) : List Bytes → Prop
  | unacceptable : Refusal c [[socksVersion, authNoAcceptable]]
  | selected (h : c.Served) : Refusal c [c.selection]
  | denied (h : c.identified) : Refusal c [c.selection, [0x01, 0x01]]
  | request (h : c.Served) (rep : UInt8) (hrep : rep ≠ 0x00) :
      Refusal c (c.granted ++ [buildReply rep])

/-- Where the server is with its client: its listeners, unsettled checks, `auth`, connections and
replies, and how many bytes it was given. -/
inductive Phase (c : Client) (info : SocketInfo) :
    List DataListener → List Check → Option Credentials → List Address → List Bytes → ℕ → Prop
  | greeting : Phase c info [.greeting] [] none [] [] 0
  | auth (h : c.identified) : Phase c info [.auth info] [] none [] [c.selection] c.greeting.length
  | checking (h : c.Served) (check : Check) (hcheck : check.credentials = c.auth) {taken : ℕ}
      (htaken : Introduced c taken) : Phase c info [] [check] none [] [c.selection] taken
  | request (h : c.Served) {taken : ℕ} (htaken : Introduced c taken) :
      Phase c info [.request] [] c.auth [] c.granted taken
  | promoted (h : c.Served) (listeners : List DataListener)
      (hpipe : ∀ listener ∈ listeners, listener = .pipe) (reps : List UInt8) (taken : ℕ) :
      Phase c info listeners [] c.auth [c.address] (c.granted ++ reps.map buildReply) taken
  | refused {replies : List Bytes} (h : Refusal c replies) (auth : Option Credentials)
      (taken : ℕ) : Phase c info [] [] auth [] replies taken

/-- The server reads no more handshake messages. -/
def Over (s : Socket) : Prop := s.promoted ≠ [] ∨ s.dataListeners = [] ∧ s.checks = []

/-- Where the client is: the replies of the server, what it has sent and how much it has read;
`closing` says that the server reads no more messages. -/
inductive At (c : Client) (closing : Prop) : Stage → List Bytes → Bytes → ℕ → Prop
  | method (replies : List Bytes) : At c closing .method replies c.greeting 0
  | status (h : c.identified) (rest : List Bytes) :
      At c closing .status (c.selection :: rest) c.introduction 2
  | reply (rest : List Bytes) :
      At c closing .reply (c.granted ++ rest) (c.introduction ++ c.request) c.granted.flatten.length
  | connected (rest : List Bytes) (data : Bytes) (read : ℕ) :
      At c closing .connected (c.granted ++ buildReply 0x00 :: rest)
        (c.introduction ++ c.request ++ data) read
  | failed (h : closing) (replies : List Bytes) (sent : Bytes) (read : ℕ) :
      At c closing .failed replies sent read

/-- **How the two parties fit together.** -/
structure Joint (opts : Options) (c : Client) (endpoints : SocketInfo) (s : Session) : Prop where
  inv : s.socket.Inv opts
  endpoints_eq : s.socket.endpoints = endpoints
  phase : Phase c (socketInfo endpoints) s.socket.dataListeners s.socket.checks s.socket.auth
    s.socket.promoted (repliesOf s.socket.log) s.taken
  client : At c (Over s.socket) s.stage (repliesOf s.socket.log) s.sent s.read
  asks : ∀ info, .authenticate info ∈ s.socket.log → info = authInfo c.auth (socketInfo endpoints)

theorem joint_new (opts : Options) (c : Client) (endpoints : SocketInfo) :
    Joint opts c endpoints (new c endpoints) where
  inv := Socket.inv_accepted opts endpoints
  endpoints_eq := rfl
  phase := .greeting
  client := .method []
  asks := by simp [new, Socket.accepted]

/-- More replies do not change where the client is. -/
theorem At.extend {closing closing' : Prop} {stage : Stage} {replies : List Bytes} {sent : Bytes}
    {read : ℕ} (h : At c closing stage replies sent read) (hclosing : closing → closing')
    (extra : List Bytes) : At c closing' stage (replies ++ extra) sent read := by
  cases h with
  | method => exact .method _
  | status h rest => exact .status h (rest ++ extra)
  | reply rest =>
      rw [List.append_assoc]
      exact .reply (rest ++ extra)
  | connected rest data =>
      rw [List.append_assoc, List.cons_append]
      exact .connected (rest ++ extra) data read
  | failed h => exact .failed (hclosing h) _ _ _

theorem length_greeting_le (c : Client) : c.greeting.length ≤ c.introduction.length := by
  rw [Client.introduction]
  split_ifs
  · simp
  · exact le_rfl

theorem Introduced.le {taken : ℕ} (h : Introduced c taken) : c.introduction.length ≤ taken := by
  rcases h with rfl | ⟨-, rfl⟩
  · exact le_rfl
  · simp

/-- What a client has sent that was granted no more than its request. -/
theorem At.sent_cases {closing : Prop} {stage : Stage} {replies : List Bytes} {sent : Bytes}
    {read : ℕ} (h : At c closing stage replies sent read) (hclosing : ¬ closing)
    (hgranted : replies <+: c.granted) :
    sent = c.greeting ∨ (c.identified ∧ replies ≠ [] ∧ sent = c.introduction) ∨
      (replies = c.granted ∧ sent = c.introduction ++ c.request) := by
  cases h with
  | method => exact Or.inl rfl
  | status h rest => exact Or.inr (Or.inl ⟨h, by simp, rfl⟩)
  | reply rest =>
      have hnil : rest = [] := by
        have hlength := hgranted.length_le
        rw [List.length_append] at hlength
        exact List.length_eq_zero_iff.mp (by omega)
      exact Or.inr (Or.inr ⟨by rw [hnil, List.append_nil], rfl⟩)
  | connected rest data =>
      have hlength := hgranted.length_le
      simp only [List.length_append, List.length_cons] at hlength
      omega
  | failed h => exact absurd h hclosing

/-! ## The server's steps -/

/-- What a step makes of a socket, as far as the handshake goes. -/
structure Effect (s s' : Socket) (listeners : List DataListener) (checks : List Check)
    (auth : Option Credentials) (promoted : List Address) (extra : List Action) : Prop where
  endpoints_eq : s'.endpoints = s.endpoints
  listeners_eq : s'.dataListeners = listeners
  checks_eq : s'.checks = checks
  auth_eq : s'.auth = auth
  promoted_eq : s'.promoted = promoted
  log_eq : s'.log = s.log ++ extra

variable {endpoints : SocketInfo} {s : Session}

/-- A step of the server keeps the parties together if it leads to a phase, and asks
`authenticate` about nothing but the client's credentials. -/
theorem Joint.effect (h : Joint opts c endpoints s) {socket : Socket} {taken : ℕ}
    {listeners : List DataListener} {checks : List Check} {auth : Option Credentials}
    {promoted : List Address} {extra : List Action}
    (heffect : Effect s.socket socket listeners checks auth promoted extra)
    (hinv : socket.Inv opts)
    (hphase : Phase c (socketInfo endpoints) listeners checks auth promoted
      (repliesOf s.socket.log ++ repliesOf extra) taken)
    (hclosing : Over s.socket → promoted ≠ [] ∨ listeners = [] ∧ checks = [])
    (hasks : ∀ info, .authenticate info ∈ extra →
      info = authInfo c.auth (socketInfo endpoints)) :
    Joint opts c endpoints { s with socket := socket, taken := taken } where
  inv := hinv
  endpoints_eq := heffect.endpoints_eq.trans h.endpoints_eq
  phase := by
    rw [heffect.listeners_eq, heffect.checks_eq, heffect.auth_eq, heffect.promoted_eq,
      heffect.log_eq, repliesOf_append]
    exact hphase
  client := by
    rw [heffect.log_eq, repliesOf_append]
    refine h.client.extend (fun hs => ?_) _
    rw [Over, heffect.promoted_eq, heffect.listeners_eq, heffect.checks_eq]
    exact hclosing hs
  asks info hinfo := by
    rw [heffect.log_eq] at hinfo
    exact (List.mem_append.mp hinfo).elim (h.asks info) (hasks info)

/-- A step that the handshake has no part in. -/
theorem Joint.quiet (h : Joint opts c endpoints s) {socket : Socket}
    (hquiet : Socket.Quiet s.socket socket) :
    Joint opts c endpoints { s with socket := socket } := by
  have hreplies := hquiet.repliesOf_eq
  obtain ⟨extra, hlog, hextra⟩ := hquiet.log_eq
  have heffect : Effect s.socket socket _ _ _ _ extra := ⟨hquiet.endpoints_eq,
    hquiet.dataListeners_eq, hquiet.checks_eq, hquiet.auth_eq, hquiet.promoted_eq, hlog⟩
  refine h.effect heffect (h.inv.quiet hquiet) ?_ id ?_
  · rw [← repliesOf_append, ← hlog, hreplies]
    exact h.phase
  · intro info hinfo
    rcases hextra _ hinfo with heq | ⟨code, connection, heq⟩ <;> cases heq

theorem Joint.deliver_greeting (h : Joint opts c endpoints s) (answer : AuthInfo → Answer)
    {g : Bytes} {taken : ℕ} (hg : g = c.greeting ∧ taken = c.greeting.length ∨
      choose g = .noAcceptable)
    (hlisteners : s.socket.dataListeners = [.greeting]) (hchecks : s.socket.checks = [])
    (hauth : s.socket.auth = none) (hpromoted : s.socket.promoted = [])
    (hreplies : repliesOf s.socket.log = []) (hinv : (s.socket.onData opts answer g).Inv opts) :
    Joint opts c endpoints { s with socket := s.socket.onData opts answer g, taken := taken } := by
  have hclosing : ∀ {P : Prop}, Over s.socket → P := by
    rintro P (hne | ⟨hnil, -⟩)
    · exact absurd hpromoted hne
    · rw [hlisteners] at hnil
      cases hnil
  rw [Socket.onData_greeting answer g hlisteners, Socket.onGreeting_eq, Socket.taken_endpoints,
    h.endpoints_eq] at hinv ⊢
  have hrefused : choose g = .noAcceptable → Joint opts c endpoints
      { s with
        socket := ((s.socket.taken g).write [socksVersion, authNoAcceptable]).endSocket
        taken := taken } := by
    intro hchoose
    rw [hchoose] at hinv
    refine h.effect (?_ : Effect s.socket _ [] [] none []
      [.received g, .wrote [socksVersion, authNoAcceptable], .ended]) hinv ?_ hclosing (by simp)
    · refine ⟨rfl, rfl, hchecks, hauth, hpromoted, ?_⟩
      simp [Socket.taken, Socket.write, Socket.endSocket, Socket.act]
    · rw [hreplies]
      exact .refused .unacceptable none taken
  rcases hg with ⟨rfl, rfl⟩ | hchoose
  · cases hchoice : choose c.greeting with
    | noAcceptable => exact hrefused hchoice
    | badVersion =>
        rw [Client.choose_greeting] at hchoice
        split_ifs at hchoice
    | userpass =>
        rw [hchoice] at hinv
        have huser : c.identified := by
          rw [Client.choose_greeting] at hchoice
          split_ifs at hchoice with huser
          exact huser
        have hselection : c.selection = [socksVersion, authUserpass] := if_pos huser
        refine h.effect (?_ : Effect s.socket _ [.auth (socketInfo endpoints)] [] none []
          [.received c.greeting, .wrote c.selection]) hinv ?_ hclosing (by simp)
        · refine ⟨rfl, rfl, hchecks, hauth, hpromoted, ?_⟩
          simp [Socket.afterHandlers, Socket.taken, Socket.write, Socket.onceData, Socket.act,
            hselection]
        · rw [hreplies]
          exact .auth huser
    | noAuth =>
        rw [hchoice] at hinv
        obtain ⟨huser, hnone⟩ : ¬ c.identified ∧ authNone ∈ c.methods := by
          rw [Client.choose_greeting] at hchoice
          split_ifs at hchoice with huser hnone
          exact ⟨huser, hnone⟩
        have hserved : c.Served := Or.inr hnone
        have hselection : c.selection = [socksVersion, authNone] := if_neg huser
        have hgranted : c.granted = [c.selection] := if_neg huser
        have hauth' : c.auth = none := if_neg huser
        have hintroduced : Introduced c c.greeting.length :=
          Or.inl (by rw [Client.introduction, if_neg huser])
        by_cases hopts : opts.authenticate = true
        · simp only [if_pos hopts, Socket.authenticate] at hinv ⊢
          cases hanswer : answer (authInfo none (socketInfo endpoints)) with
          | throws =>
              simp only [hanswer] at hinv ⊢
              refine h.effect (?_ : Effect s.socket _ [] [] none []
                [.received c.greeting, .wrote c.selection,
                  .authenticate (authInfo none (socketInfo endpoints)), .uncaught])
                hinv ?_ hclosing (by simp [hauth'])
              · refine ⟨rfl, rfl, hchecks, hauth, hpromoted, ?_⟩
                simp [Socket.afterHandlers, Socket.taken, Socket.write, Socket.act, hselection]
              · rw [hreplies]
                exact .refused (.selected hserved) none _
          | returns =>
              simp only [hanswer] at hinv ⊢
              refine h.effect (?_ : Effect s.socket _ []
                [⟨none, authInfo none (socketInfo endpoints), true⟩] none []
                [.received c.greeting, .wrote c.selection,
                  .authenticate (authInfo none (socketInfo endpoints))])
                hinv ?_ hclosing (by simp [hauth'])
              · refine ⟨rfl, rfl, ?_, hauth, hpromoted, ?_⟩
                · simp [Socket.afterHandlers, Socket.taken, Socket.write, Socket.act, hchecks]
                · simp [Socket.afterHandlers, Socket.taken, Socket.write, Socket.act, hselection]
              · rw [hreplies]
                exact .checking hserved _ hauth'.symm hintroduced
        · simp only [if_neg hopts] at hinv ⊢
          refine h.effect (?_ : Effect s.socket _ [.request] [] c.auth []
            [.received c.greeting, .wrote c.selection]) hinv ?_ hclosing (by simp)
          · refine ⟨rfl, rfl, hchecks, hauth.trans hauth'.symm, hpromoted, ?_⟩
            simp [Socket.afterHandlers, Socket.taken, Socket.write, Socket.act,
              Socket.handleRequest, Socket.onceData, Socket.resume, hselection]
          · rw [hreplies]
            have hphase : Phase c (socketInfo endpoints) [.request] [] c.auth [] c.granted _ :=
              .request hserved hintroduced
            rw [hgranted] at hphase
            exact hphase
  · rw [hchoose]
    exact hrefused hchoose

theorem Joint.deliver_auth (h : Joint opts c endpoints s) (answer : AuthInfo → Answer)
    {a : Bytes} {taken : ℕ} (huser : c.identified) (ha : a <+: c.message)
    (htaken : a = c.message → taken = c.introduction.length)
    (hlisteners : s.socket.dataListeners = [.auth (socketInfo endpoints)])
    (hchecks : s.socket.checks = []) (hauth : s.socket.auth = none)
    (hpromoted : s.socket.promoted = []) (hreplies : repliesOf s.socket.log = [c.selection])
    (hinv : (s.socket.onData opts answer a).Inv opts) :
    Joint opts c endpoints { s with socket := s.socket.onData opts answer a, taken := taken } := by
  have hclosing : ∀ {P : Prop}, Over s.socket → P := by
    rintro P (hne | ⟨hnil, -⟩)
    · exact absurd hpromoted hne
    · rw [hlisteners] at hnil
      cases hnil
  have hserved : c.Served := Or.inl huser
  rw [Socket.onData_auth answer a hlisteners, Socket.onAuth] at hinv ⊢
  cases hparse : parseAuth a with
  | none =>
      simp only [hparse] at hinv ⊢
      refine h.effect (?_ : Effect s.socket _ [] [] none []
        [.received a, .wrote [0x01, 0x01], .ended]) hinv ?_ hclosing (by simp)
      · refine ⟨rfl, rfl, hchecks, hauth, hpromoted, ?_⟩
        simp [Socket.afterHandlers, Socket.taken, Socket.write, Socket.endSocket, Socket.act]
      · rw [hreplies]
        exact .refused (.denied huser) none taken
  | some credentials =>
      obtain ⟨rfl, hcredentials⟩ := Client.parseAuth_chunk huser ha hparse
      have hintroduced : Introduced c taken := Or.inl (htaken rfl)
      simp only [hparse] at hinv ⊢
      by_cases hopts : opts.authenticate = true
      · simp only [if_pos hopts, Socket.authenticate] at hinv ⊢
        cases hanswer : answer (authInfo (some credentials) (socketInfo endpoints)) with
        | throws =>
            simp only [hanswer] at hinv ⊢
            refine h.effect (?_ : Effect s.socket _ [] [] none []
              [.received c.message,
                .authenticate (authInfo (some credentials) (socketInfo endpoints)), .uncaught])
              hinv ?_ hclosing (by simp [hcredentials])
            · refine ⟨rfl, rfl, hchecks, hauth, hpromoted, ?_⟩
              simp [Socket.afterHandlers, Socket.taken, Socket.act]
            · rw [hreplies]
              exact .refused (.selected hserved) none taken
        | returns =>
            simp only [hanswer] at hinv ⊢
            refine h.effect (?_ : Effect s.socket _ []
              [⟨some credentials, authInfo (some credentials) (socketInfo endpoints), true⟩] none []
              [.received c.message,
                .authenticate (authInfo (some credentials) (socketInfo endpoints))])
              hinv ?_ hclosing (by simp [hcredentials])
            · refine ⟨rfl, rfl, ?_, hauth, hpromoted, ?_⟩
              · simp [Socket.afterHandlers, Socket.taken, Socket.act, hchecks]
              · simp [Socket.afterHandlers, Socket.taken, Socket.act]
            · rw [hreplies]
              exact .checking hserved _ hcredentials hintroduced
      · simp only [if_neg hopts] at hinv ⊢
        refine h.effect (?_ : Effect s.socket _ []
          [⟨some credentials, authInfo (some credentials) (socketInfo endpoints), false⟩] none []
          [.received c.message]) hinv ?_ hclosing (by simp)
        · refine ⟨rfl, rfl, ?_, hauth, hpromoted, rfl⟩
          simp [Socket.afterHandlers, Socket.taken, hchecks]
        · rw [hreplies]
          exact .checking hserved _ hcredentials hintroduced

theorem Joint.deliver_request (h : Joint opts c endpoints s) (answer : AuthInfo → Answer)
    {r : Bytes} {taken : ℕ} (hserved : c.Served) (hr : r <+: c.request)
    (hlisteners : s.socket.dataListeners = [.request]) (hchecks : s.socket.checks = [])
    (hauth : s.socket.auth = c.auth) (hpromoted : s.socket.promoted = [])
    (hreplies : repliesOf s.socket.log = c.granted)
    (hinv : (s.socket.onData opts answer r).Inv opts) :
    Joint opts c endpoints { s with socket := s.socket.onData opts answer r, taken := taken } := by
  have hclosing : ∀ {P : Prop}, Over s.socket → P := by
    rintro P (hne | ⟨hnil, -⟩)
    · exact absurd hpromoted hne
    · rw [hlisteners] at hnil
      cases hnil
  have hrefused : ∀ rep : UInt8, rep ≠ 0x00 →
      (((s.socket.taken r).write (buildReply rep)).endSocket).Inv opts →
      Joint opts c endpoints
        { s with
          socket := ((s.socket.taken r).write (buildReply rep)).endSocket
          taken := taken } := by
    intro rep hrep hinv
    refine h.effect (?_ : Effect s.socket _ [] [] c.auth []
      [.received r, .wrote (buildReply rep), .ended]) hinv ?_ hclosing (by simp)
    · refine ⟨rfl, rfl, hchecks, hauth, hpromoted, ?_⟩
      simp [Socket.taken, Socket.write, Socket.endSocket, Socket.act]
    · rw [hreplies]
      exact .refused (.request hserved rep hrep) _ taken
  rw [Socket.onData_request answer r hlisteners, Socket.onRequest] at hinv ⊢
  split_ifs at hinv ⊢ with hcmd
  · exact hrefused 0x07 (by decide) hinv
  · cases hparse : parseAddress r with
    | none =>
        simp only [hparse] at hinv ⊢
        exact hrefused 0x01 (by decide) hinv
    | some address =>
        obtain rfl := Client.parseAddress_chunk hr hparse
        simp only [hparse] at hinv ⊢
        refine h.effect (?_ : Effect s.socket _ [] [] c.auth [c.address]
          [.received r, .connection c.address]) hinv ?_ hclosing (by simp)
        · refine ⟨rfl, rfl, hchecks, hauth, ?_, ?_⟩
          · simp [Socket.promote, Socket.act, Socket.taken, hpromoted]
          · simp [Socket.promote, Socket.act, Socket.taken]
        · rw [hreplies]
          exact .promoted hserved [] (by simp) [] taken

/-- A chunk that no handshake message is made of. -/
theorem Joint.deliver_lost (h : Joint opts c endpoints s) (answer : AuthInfo → Answer)
    (chunk : Bytes) {taken : ℕ} (hlisteners : s.socket.dataListeners = [])
    (hphase : Phase c (socketInfo endpoints) s.socket.dataListeners s.socket.checks s.socket.auth
      s.socket.promoted (repliesOf s.socket.log) taken)
    (hinv : (s.socket.onData opts answer chunk).Inv opts) :
    Joint opts c endpoints
      { s with socket := s.socket.onData opts answer chunk, taken := taken } := by
  rw [Socket.onData, if_pos hlisteners] at hinv ⊢
  have heffect : Effect s.socket (s.socket.act (.lost chunk)) s.socket.dataListeners
      s.socket.checks s.socket.auth s.socket.promoted [.lost chunk] :=
    ⟨rfl, rfl, rfl, rfl, rfl, rfl⟩
  refine h.effect heffect hinv ?_ id (by simp)
  have hsilent : repliesOf [.lost chunk] = [] := rfl
  rwa [hsilent, List.append_nil]

/-- **What is delivered to the server keeps the parties together.** -/
theorem Joint.deliver (h : Joint opts c endpoints s) {n : ℕ} {answer : AuthInfo → Answer}
    (hadm : s.Admits (.deliver n answer)) (hcut : s.Whole (.deliver n answer)) :
    Joint opts c endpoints (s.step opts c (.deliver n answer)) := by
  obtain ⟨hn, hsent, halive⟩ := hadm
  obtain ⟨hwhole, hpending⟩ := hcut
  have hinv : (s.socket.step opts (.data (s.chunk n) answer)).Inv opts := Socket.inv_step h.inv
  rw [step]
  rw [Socket.step, h.inv.flowing, halive, if_neg (by simp)] at hinv ⊢
  have hphase := h.phase
  have hclient := h.client
  rw [Over] at hclient
  generalize hlisteners : s.socket.dataListeners = listeners at hphase hclient hwhole
  generalize hchecks : s.socket.checks = checks at hphase hclient hpending
  generalize hauth : s.socket.auth = auth at hphase
  generalize hpromoted : s.socket.promoted = promoted at hphase hclient
  generalize hreplies : repliesOf s.socket.log = replies at hphase hclient
  generalize htaken : s.taken = taken at hphase hsent hwhole hpending ⊢
  cases hphase with
  | greeting =>
      refine h.deliver_greeting answer ?_ hlisteners hchecks hauth hpromoted hreplies hinv
      rcases hclient.sent_cases (by simp) List.nil_prefix with hs | ⟨-, hne, -⟩ | ⟨hgranted, -⟩
      · rcases hwhole rfl with hall | hchoose
        · rw [Nat.zero_add] at hall
          refine Or.inl ⟨?_, ?_⟩
          · rw [chunk, htaken, hs, List.drop_zero, List.take_of_length_le]
            rw [hall, hs]
          · rw [Nat.zero_add, hall, hs]
        · exact Or.inr hchoose
      · exact absurd rfl hne
      · rw [Client.granted] at hgranted
        split_ifs at hgranted
  | auth huser =>
      have hgranted : c.granted = [c.selection, [0x01, 0x00]] := if_pos huser
      have hintroduction : c.introduction = c.greeting ++ c.message := if_pos huser
      rcases hclient.sent_cases (by simp) (by simp [hgranted]) with hs | ⟨-, -, hs⟩ | ⟨heq, -⟩
      · rw [hs] at hsent
        omega
      · have hchunk : s.chunk n = c.message.take n := by
          rw [chunk, htaken, hs, hintroduction, List.drop_left]
        refine h.deliver_auth answer huser ?_ (fun hall => ?_) hlisteners hchecks hauth hpromoted
          hreplies hinv
        · rw [hchunk]
          exact List.take_prefix _ _
        · rw [hchunk, List.take_eq_self_iff] at hall
          rw [hs, hintroduction, List.length_append] at hsent
          rw [hintroduction, List.length_append]
          omega
      · rw [hgranted] at heq
        cases heq
  | checking hserved check hcheck hintroduced =>
      have hle := hintroduced.le
      have hle' := length_greeting_le c
      have hprefix : [c.selection] <+: c.granted := by
        rw [Client.granted]
        split_ifs <;> simp
      rcases hclient.sent_cases (by simp) hprefix with hs | ⟨-, -, hs⟩ | ⟨heq, hs⟩
      · rw [hs] at hsent
        omega
      · rw [hs] at hsent
        omega
      · -- the request is lost as a whole
        have huser : ¬ c.identified := by
          intro huser
          rw [Client.granted, if_pos huser] at heq
          cases heq
        have hall := hpending (by simp)
        refine h.deliver_lost answer _ hlisteners ?_ hinv
        rw [hlisteners, hchecks, hauth, hpromoted, hreplies]
        exact .checking hserved check hcheck (Or.inr ⟨huser, by rw [hall, hs]⟩)
  | request hserved hintroduced =>
      have hle := hintroduced.le
      have hle' := length_greeting_le c
      rcases hclient.sent_cases (by simp) List.prefix_rfl with hs | ⟨-, -, hs⟩ | ⟨-, hs⟩
      · rw [hs] at hsent
        omega
      · rw [hs] at hsent
        omega
      · rcases hintroduced with rfl | ⟨-, rfl⟩
        · refine h.deliver_request answer hserved ?_ hlisteners hchecks hauth hpromoted hreplies
            hinv
          rw [chunk, htaken, hs, List.drop_left]
          exact List.take_prefix _ _
        · rw [hs] at hsent
          omega
  | promoted hserved listeners hpipe reps taken =>
      by_cases hnil : listeners = []
      · subst hnil
        refine h.deliver_lost answer _ hlisteners ?_ hinv
        rw [hlisteners, hchecks, hauth, hpromoted, hreplies]
        exact .promoted hserved [] hpipe reps _
      · subst hlisteners
        rw [Socket.onData_pipe answer _ hpipe hnil] at hinv ⊢
        refine h.effect (?_ : Effect s.socket _ s.socket.dataListeners [] c.auth [c.address]
          (.received (s.chunk n) ::
            List.replicate s.socket.dataListeners.length (.piped (s.chunk n))))
          hinv ?_ (fun _ => Or.inl (by simp)) (by simp)
        · exact ⟨rfl, rfl, hchecks, hauth, hpromoted, rfl⟩
        · rw [hreplies, repliesOf_piped, List.append_nil]
          exact .promoted hserved _ hpipe reps _
  | refused hrefusal auth taken =>
      refine h.deliver_lost answer _ hlisteners ?_ hinv
      rw [hlisteners, hchecks, hauth, hpromoted, hreplies]
      exact .refused hrefusal auth _

/-- The handlers of a check. -/
theorem Joint.onSettled (h : Joint opts c endpoints s) {socket : Socket} {pre : List Action}
    (check : Check) (result : Settlement) (heffect : Effect s.socket socket [] [] none [] pre)
    (hpre : repliesOf pre = [] ∧ ∀ info, .authenticate info ∉ pre) (hserved : c.Served)
    (hcheck : check.credentials = c.auth) (hintroduced : Introduced c s.taken)
    (hreplies : repliesOf s.socket.log = [c.selection])
    (hclosing : ¬ Over s.socket) (hinv : (socket.onSettled check result).Inv opts) :
    Joint opts c endpoints { s with socket := socket.onSettled check result } := by
  have hrefused : ∀ {socket' : Socket} (extra : List Action) {replies : List Bytes},
      Effect socket socket' [] [] none [] extra → (∀ info, .authenticate info ∉ extra) →
      [c.selection] ++ repliesOf extra = replies → Refusal c replies → socket'.Inv opts →
      Joint opts c endpoints { s with socket := socket' } := by
    intro socket' extra replies hextra hasks heq hrefusal hinv'
    refine h.effect (?_ : Effect s.socket socket' [] [] none [] (pre ++ extra)) hinv' ?_
      (fun hs => absurd hs hclosing) fun info hinfo => ?_
    · refine ⟨hextra.endpoints_eq.trans heffect.endpoints_eq, hextra.listeners_eq,
        hextra.checks_eq, hextra.auth_eq, hextra.promoted_eq, ?_⟩
      rw [hextra.log_eq, heffect.log_eq, List.append_assoc]
    · rw [repliesOf_append, hpre.1, List.nil_append, hreplies, heq]
      exact .refused hrefusal none s.taken
    · exact (List.mem_append.mp hinfo).elim (fun hm => absurd hm (hpre.2 info))
        (fun hm => absurd hm (hasks info))
  obtain ⟨hendpoints, hlisteners, hchecks, hauth, hpromoted, hlog⟩ := heffect
  rw [Socket.onSettled.eq_def, hcheck] at hinv ⊢
  by_cases huser : c.identified
  · have hauth' : c.auth = some ⟨utf8Decode c.username, utf8Decode c.password⟩ := if_pos huser
    have hgranted : c.granted = [c.selection, [0x01, 0x00]] := if_pos huser
    rw [hauth'] at hinv ⊢
    cases result with
    | fulfilled admitted =>
        cases admitted with
        | true =>
            refine h.effect (?_ : Effect s.socket _ [.request] [] c.auth []
              (pre ++ [.wrote [0x01, 0x00]])) hinv ?_ (fun hs => absurd hs hclosing) ?_
            · refine ⟨hendpoints, ?_, hchecks, hauth'.symm, hpromoted, ?_⟩
              · simp [Socket.handleRequest, Socket.onceData, Socket.resume, Socket.write,
                  Socket.act, hlisteners]
              · simp [Socket.handleRequest, Socket.onceData, Socket.resume, Socket.write,
                  Socket.act, hlog]
            · have hphase : Phase c (socketInfo endpoints) [.request] [] c.auth [] c.granted
                  s.taken := .request hserved hintroduced
              rw [hgranted] at hphase
              rw [repliesOf_append, hpre.1, hreplies]
              exact hphase
            · intro info hinfo
              exact absurd (by simpa using hinfo) (hpre.2 info)
        | false =>
            refine hrefused [.wrote [0x01, 0x01], .ended]
              ⟨rfl, hlisteners, hchecks, hauth, hpromoted, ?_⟩ (by simp) rfl (.denied huser) hinv
            simp [Socket.write, Socket.endSocket, Socket.act]
    | rejected =>
        refine hrefused [.error none false, .ended]
          ⟨rfl, hlisteners, hchecks, hauth, hpromoted, ?_⟩ (by simp) rfl (.selected hserved) hinv
        simp [Socket.endSocket, Socket.act]
  · have hauth' : c.auth = none := if_neg huser
    have hgranted : c.granted = [c.selection] := if_neg huser
    rw [hauth'] at hinv ⊢
    cases result with
    | fulfilled admitted =>
        cases admitted with
        | true =>
            refine h.effect (?_ : Effect s.socket _ [.request] [] c.auth [] pre) hinv ?_
              (fun hs => absurd hs hclosing) ?_
            · refine ⟨hendpoints, ?_, hchecks, hauth.trans hauth'.symm, hpromoted, hlog⟩
              simp [Socket.handleRequest, Socket.onceData, Socket.resume, hlisteners]
            · have hphase : Phase c (socketInfo endpoints) [.request] [] c.auth [] c.granted
                  s.taken := .request hserved hintroduced
              rw [hgranted] at hphase
              rw [hpre.1, hreplies]
              exact hphase
            · exact fun info hinfo => absurd hinfo (hpre.2 info)
        | false =>
            exact hrefused [.ended] ⟨rfl, hlisteners, hchecks, hauth, hpromoted, rfl⟩ (by simp) rfl
              (.selected hserved) hinv
    | rejected =>
        refine hrefused [.error none false, .ended]
          ⟨rfl, hlisteners, hchecks, hauth, hpromoted, ?_⟩ (by simp) rfl (.selected hserved) hinv
        simp [Socket.endSocket, Socket.act]

/-- A settlement keeps the parties together. -/
theorem Joint.settle (h : Joint opts c endpoints s) (i : ℕ) (result : Settlement) :
    Joint opts c endpoints { s with socket := s.socket.onSettle i result } := by
  have hinv : (s.socket.step opts (.settle i result)).Inv opts := Socket.inv_step h.inv
  rw [Socket.step] at hinv
  have hphase := h.phase
  generalize hlisteners : s.socket.dataListeners = listeners at hphase
  generalize hchecks : s.socket.checks = checks at hphase
  generalize hauth : s.socket.auth = auth at hphase
  generalize hpromoted : s.socket.promoted = promoted at hphase
  generalize hreplies : repliesOf s.socket.log = replies at hphase
  obtain ⟨taken, htaken⟩ : ∃ taken, taken = s.taken := ⟨_, rfl⟩
  rw [← htaken] at hphase
  have hunchecked : checks = [] →
      Joint opts c endpoints { s with socket := s.socket.onSettle i result } := by
    intro hnil
    rw [Socket.onSettle, hchecks, hnil]
    exact h
  cases hphase with
  | greeting | auth | request | promoted | refused => exact hunchecked rfl
  | checking hserved check hcheck hintroduced =>
      have hclosing : ¬ Over s.socket := by simp [Over, hpromoted, hchecks]
      cases i with
      | succ i =>
          have hnone : s.socket.onSettle (i + 1) result = s.socket := by
            simp [Socket.onSettle, hchecks]
          rw [hnone]
          exact h
      | zero =>
          have heq : s.socket.onSettle 0 result =
              if check.asked then
                ({ s.socket with checks := [] }.act (.settled result)).onSettled check result
              else { s.socket with checks := [] }.onSettled check (.fulfilled true) := by
            simp [Socket.onSettle, hchecks]
          rw [htaken] at hintroduced
          rw [heq] at hinv ⊢
          split_ifs at hinv ⊢
          · refine h.onSettled check result
              (?_ : Effect s.socket _ [] [] none [] [.settled result]) ⟨rfl, by simp⟩
              hserved hcheck hintroduced hreplies hclosing hinv
            exact ⟨rfl, hlisteners, rfl, hauth, hpromoted, rfl⟩
          · refine h.onSettled check (.fulfilled true) (?_ : Effect s.socket _ [] [] none [] [])
              ⟨rfl, by simp⟩ hserved hcheck hintroduced hreplies hclosing hinv
            exact ⟨rfl, hlisteners, rfl, hauth, hpromoted, (List.append_nil _).symm⟩

/-- What the user does with a connection keeps the parties together. -/
theorem Joint.promoted (h : Joint opts c endpoints s) {socket : Socket}
    (hsome : s.socket.promoted ≠ []) {listeners : List DataListener} {reps : List UInt8}
    {extra : List Action}
    (heffect : Effect s.socket socket (s.socket.dataListeners ++ listeners) s.socket.checks
      s.socket.auth s.socket.promoted extra)
    (hpipe : ∀ listener ∈ listeners, listener = .pipe)
    (hextra : repliesOf extra = reps.map buildReply) (hasks : ∀ info, .authenticate info ∉ extra)
    (hinv : socket.Inv opts) : Joint opts c endpoints { s with socket := socket } := by
  refine h.effect heffect hinv ?_ (fun _ => Or.inl hsome)
    fun info hinfo => absurd hinfo (hasks info)
  rw [hextra]
  have hphase := h.phase
  generalize s.socket.dataListeners = listeners' at hphase ⊢
  generalize s.socket.checks = checks at hphase ⊢
  generalize s.socket.auth = auth at hphase ⊢
  generalize s.socket.promoted = promoted at hphase hsome ⊢
  generalize repliesOf s.socket.log = replies at hphase ⊢
  obtain ⟨taken, htaken⟩ : ∃ taken, taken = s.taken := ⟨_, rfl⟩
  rw [← htaken] at hphase ⊢
  cases hphase with
  | greeting | auth | checking | request | refused => exact absurd rfl hsome
  | promoted hserved _ hpipe' reps' taken =>
      rw [List.append_assoc, ← List.map_append]
      refine .promoted hserved _ (fun listener hl => ?_) (reps' ++ reps) _
      exact (List.mem_append.mp hl).elim (hpipe' listener) (hpipe listener)

/-- **What happens at the server, other than data, keeps the parties together.** -/
theorem Joint.server (h : Joint opts c endpoints s) {e : Socks5.Event}
    (hadm : s.Admits (.server e)) : Joint opts c endpoints (s.step opts c (.server e)) := by
  have hinv : (s.socket.step opts e).Inv opts := Socket.inv_step h.inv
  rw [step]
  cases e with
  | data chunk answer => exact absurd rfl (hadm chunk answer)
  | settle i result => exact h.settle i result
  | handshakeTimeout =>
      rw [Socket.step]
      split_ifs
      · exact h.quiet ⟨rfl, rfl, rfl, rfl, rfl, rfl, rfl, [], (List.append_nil _).symm, by simp⟩
      · exact h
  | error code =>
      rw [Socket.step]
      split_ifs
      · exact h
      · exact h.quiet (Socket.Quiet.onError code (List.ne_nil_of_mem h.inv.guarded))
  | close =>
      rw [Socket.step]
      split_ifs
      · exact h
      · exact h.quiet (Socket.Quiet.onClose s.socket)
  | bind =>
      rw [Socket.step] at hinv ⊢
      split_ifs at hinv ⊢ with hnil
      · exact h
      · refine h.promoted hnil (?_ : Effect s.socket _ (_ ++ [.pipe]) _ _ _
          [.wrote (buildReply 0x00)]) (by simp) (?_ : _ = [0x00].map buildReply) (by simp) hinv
        · exact ⟨rfl, rfl, rfl, rfl, rfl, rfl⟩
        · rfl
  | refuse =>
      rw [Socket.step] at hinv ⊢
      split_ifs at hinv ⊢ with hnil
      · exact h
      · refine h.promoted hnil (?_ : Effect s.socket _ (_ ++ []) _ _ _
          [.wrote (buildReply 0x01), .ended]) (by simp) (?_ : _ = [0x01].map buildReply) (by simp)
          hinv
        · refine ⟨rfl, (List.append_nil _).symm, rfl, rfl, rfl, ?_⟩
          simp [Socket.write, Socket.endSocket, Socket.act]
        · rfl
  | «end» =>
      rw [Socket.step] at hinv ⊢
      split_ifs at hinv ⊢ with hnil
      · exact h
      · refine h.promoted hnil (?_ : Effect s.socket _ (_ ++ []) _ _ _ [.ended]) (by simp)
          (?_ : _ = [].map buildReply) (by simp) hinv
        · exact ⟨rfl, (List.append_nil _).symm, rfl, rfl, rfl, rfl⟩
        · rfl
  | destroy =>
      exact h.quiet ⟨rfl, rfl, rfl, rfl, rfl, rfl, rfl, [], (List.append_nil _).symm, by simp⟩

/-! ## The client's steps -/

/-- The replies that a client can have been sent. -/
inductive Replies (c : Client) (closing : Prop) : List Bytes → Prop
  | silent : Replies c closing []
  | unacceptable (h : closing) : Replies c closing [[socksVersion, authNoAcceptable]]
  | selected (h : c.Served) : Replies c closing [c.selection]
  | denied (h : closing) (huser : c.identified) : Replies c closing [c.selection, [0x01, 0x01]]
  | granted (h : c.Served) (reps : List UInt8) (hreps : reps ≠ [] → closing) :
      Replies c closing (c.granted ++ reps.map buildReply)

theorem Phase.replies {listeners : List DataListener} {checks : List Check}
    {auth : Option Credentials} {promoted : List Address} {replies : List Bytes} {taken : ℕ}
    (h : Phase c info listeners checks auth promoted replies taken) :
    Replies c (promoted ≠ [] ∨ listeners = [] ∧ checks = []) replies := by
  cases h with
  | greeting => exact .silent
  | auth huser => exact .selected (Or.inl huser)
  | checking hserved => exact .selected hserved
  | request hserved =>
      have hnone : Replies c (([] : List Address) ≠ [] ∨ [DataListener.request] = [] ∧
          ([] : List Check) = []) (c.granted ++ [].map buildReply) :=
        .granted hserved [] fun hne => absurd rfl hne
      rwa [List.map_nil, List.append_nil] at hnone
  | promoted hserved listeners _ reps => exact .granted hserved reps fun _ => Or.inl (by simp)
  | refused hrefusal =>
      have hclosing : ([] : List Address) ≠ [] ∨ ([] : List DataListener) = [] ∧
        ([] : List Check) = [] := Or.inr ⟨rfl, rfl⟩
      cases hrefusal with
      | unacceptable => exact .unacceptable hclosing
      | selected hserved => exact .selected hserved
      | denied huser => exact .denied hclosing huser
      | request hserved rep => exact .granted hserved [rep] fun _ => hclosing

/-- The client has read a reply, and is where `At` says. -/
theorem Joint.proceed (h : Joint opts c endpoints s) {stage : Stage} {message : Bytes} {read : ℕ}
    (hclient : At c (Over s.socket) stage (repliesOf s.socket.log) (s.sent ++ message)
      (s.read + read)) : Joint opts c endpoints (s.proceed stage message read) :=
  ⟨h.inv, h.endpoints_eq, h.phase, hclient, h.asks⟩

/-- What the client makes of a method selection. -/
theorem receive_method {method : UInt8} {rest : Bytes} (hstage : s.stage = .method)
    (harrived : s.arrived = socksVersion :: method :: rest) :
    s.receive c =
      if method = authUserpass ∧ authUserpass ∈ c.methods then s.proceed .status c.message 2
      else if method = authNone ∧ authNone ∈ c.methods then s.proceed .reply c.request 2
      else s.proceed .failed [] 2 := by
  simp only [receive, hstage, harrived, true_and]

/-- The reply to the greeting. -/
theorem Joint.receive_method (h : Joint opts c endpoints s) (hstage : s.stage = .method) :
    Joint opts c endpoints (s.receive c) := by
  have hreplies : Replies c (Over s.socket) (repliesOf s.socket.log) := h.phase.replies
  have hclient := h.client
  obtain ⟨hsent, hread⟩ : s.sent = c.greeting ∧ s.read = 0 := by
    generalize repliesOf s.socket.log = replies, s.stage = stage, s.sent = sent,
      s.read = read at hclient hstage ⊢
    cases hclient with
    | method => exact ⟨rfl, rfl⟩
    | status | reply | connected | failed => cases hstage
  have harrived : s.arrived = (repliesOf s.socket.log).flatten := by
    rw [arrived, hread, List.drop_zero]
  have hselected : c.Served → ∀ rest, repliesOf s.socket.log = c.selection :: rest →
      Joint opts c endpoints (s.receive c) := by
    intro hserved rest heq
    have hclient' : ∀ {stage message read}, At c (Over s.socket) stage (c.selection :: rest)
        (c.greeting ++ message) read → At c (Over s.socket) stage (repliesOf s.socket.log)
          (s.sent ++ message) (s.read + read) := by
      intro stage message read hat
      rwa [heq, hsent, hread, Nat.zero_add]
    rw [heq, List.flatten_cons] at harrived
    by_cases huser : c.identified
    · rw [Client.selection, if_pos huser] at harrived
      have hmem : authUserpass ∈ c.methods := huser
      have hintroduction : c.introduction = c.greeting ++ c.message := if_pos huser
      rw [Session.receive_method hstage harrived, if_pos ⟨rfl, hmem⟩]
      refine h.proceed (hclient' ?_)
      rw [← hintroduction]
      exact .status huser rest
    · rw [Client.selection, if_neg huser] at harrived
      have hnone : authNone ∈ c.methods := hserved.resolve_left huser
      have hintroduction : c.introduction = c.greeting := if_neg huser
      have hselection : c.selection = [socksVersion, authNone] := if_neg huser
      have hgranted : c.granted = [c.selection] := if_neg huser
      rw [Session.receive_method hstage harrived, if_neg fun hand => huser hand.2,
        if_pos ⟨rfl, hnone⟩]
      refine h.proceed (hclient' ?_)
      have hat : At c (Over s.socket) .reply (c.granted ++ rest) _ _ := .reply rest
      rw [hgranted, hintroduction, hselection] at hat
      rw [hselection]
      exact hat
  generalize hlog : repliesOf s.socket.log = replies at hreplies harrived
  cases hreplies with
  | silent =>
      have hnone : s.receive c = s := by
        rw [receive, hstage, harrived]
        rfl
      rw [hnone]
      exact h
  | unacceptable hclosing =>
      have hneither : ¬ authNoAcceptable = authUserpass ∧ ¬ authNoAcceptable = authNone := by
        decide
      rw [Session.receive_method hstage harrived, if_neg fun hand => hneither.1 hand.1,
        if_neg fun hand => hneither.2 hand.1]
      exact h.proceed (.failed hclosing _ _ _)
  | selected hserved => exact hselected hserved [] hlog
  | denied hclosing huser => exact hselected (Or.inl huser) _ hlog
  | granted hserved reps =>
      rw [Client.granted] at hlog
      split_ifs at hlog
      · exact hselected hserved _ hlog
      · exact hselected hserved _ hlog

/-- The reply to the username/password message. -/
theorem Joint.receive_status (h : Joint opts c endpoints s) (hstage : s.stage = .status) :
    Joint opts c endpoints (s.receive c) := by
  have hreplies : Replies c (Over s.socket) (repliesOf s.socket.log) := h.phase.replies
  have hclient := h.client
  rw [hstage] at hclient
  generalize hlog : repliesOf s.socket.log = replies at hclient hreplies
  generalize hsent : s.sent = sent at hclient
  generalize hread : s.read = read at hclient
  cases hclient with
  | status huser rest =>
      have hgranted : c.granted = [c.selection, [0x01, 0x00]] := if_pos huser
      have hselection : c.selection = [socksVersion, authUserpass] := if_pos huser
      have harrived : s.arrived = rest.flatten := by
        rw [arrived, hlog, hread, hselection]
        rfl
      rw [receive, hstage, harrived]
      generalize heq : c.selection :: rest = replies at hreplies
      cases hreplies with
      | silent => cases heq
      | unacceptable hclosing =>
          simp [hselection, authUserpass, authNoAcceptable] at heq
      | selected =>
          obtain rfl : rest = [] := (List.cons_eq_cons.mp heq).2
          exact h
      | denied hclosing =>
          obtain rfl : rest = [[0x01, 0x01]] := (List.cons_eq_cons.mp heq).2
          exact h.proceed (.failed hclosing _ _ _)
      | granted hserved reps =>
          rw [hgranted] at heq
          obtain rfl := (List.cons_eq_cons.mp heq).2
          refine h.proceed ?_
          have hat : At c (Over s.socket) .reply (c.granted ++ reps.map buildReply) _ _ :=
            .reply (reps.map buildReply)
          rw [hgranted, hselection] at hat
          rw [hlog, hsent, hread, hselection]
          exact hat

/-- The reply to the request. -/
theorem Joint.receive_reply (h : Joint opts c endpoints s) (hstage : s.stage = .reply) :
    Joint opts c endpoints (s.receive c) := by
  have hreplies : Replies c (Over s.socket) (repliesOf s.socket.log) := h.phase.replies
  have hclient := h.client
  rw [hstage] at hclient
  generalize hlog : repliesOf s.socket.log = replies at hclient hreplies
  generalize hsent : s.sent = sent at hclient
  generalize hread : s.read = read at hclient
  cases hclient with
  | reply rest =>
      have harrived : s.arrived = rest.flatten := by
        rw [arrived, hlog, hread, List.flatten_append, List.drop_left]
      rw [receive, hstage, harrived]
      have hrest : rest = [] ∨ ∃ rep rest', rest = buildReply rep :: rest' ∧ Over s.socket := by
        have hselection : c.selection ≠ [socksVersion, authNoAcceptable] := by
          rw [Client.selection]
          split_ifs <;> simp [authUserpass, authNone, authNoAcceptable]
        generalize heq : c.granted ++ rest = replies at hreplies
        cases hreplies with
        | silent =>
            rw [Client.granted] at heq
            split_ifs at heq <;> cases heq
        | unacceptable =>
            rw [Client.granted] at heq
            split_ifs at heq
            · exact absurd (List.cons_eq_cons.mp heq).1 hselection
            · exact absurd (List.cons_eq_cons.mp heq).1 hselection
        | selected =>
            rw [Client.granted] at heq
            split_ifs at heq
            · cases heq
            · exact Or.inl (List.cons_eq_cons.mp heq).2
        | denied hclosing huser =>
            rw [Client.granted, if_pos huser] at heq
            cases heq
        | granted hserved reps hreps =>
            obtain rfl := List.append_cancel_left heq
            cases reps with
            | nil => exact Or.inl rfl
            | cons rep reps => exact Or.inr ⟨rep, reps.map buildReply, rfl, hreps (by simp)⟩
      rcases hrest with rfl | ⟨rep, rest', rfl, hclosing⟩
      · exact h
      · by_cases hrep : rep = 0x00
        · subst hrep
          refine h.proceed ?_
          rw [hlog, hsent]
          exact .connected rest' [] _
        · have hfailed : (if rep = 0x00 then s.proceed .connected [] 10
              else s.proceed .failed [] 10) = s.proceed .failed [] 10 := if_neg hrep
          simp only [buildReply, List.flatten_cons, List.cons_append, List.nil_append, hfailed]
          exact h.proceed (.failed hclosing _ _ _)


/-- **What the client reads keeps the parties together.** -/
theorem Joint.receive (h : Joint opts c endpoints s) : Joint opts c endpoints (s.receive c) := by
  cases hstage : s.stage with
  | method => exact h.receive_method hstage
  | status => exact h.receive_status hstage
  | reply => exact h.receive_reply hstage
  | connected | failed =>
      have hnone : s.receive c = s := by
        rw [Session.receive, hstage]
      rw [hnone]
      exact h

theorem At.send {closing : Prop} {replies : List Bytes} {sent : Bytes} {read : ℕ}
    (h : At c closing .connected replies sent read) (data : Bytes) :
    At c closing .connected replies (sent ++ data) read := by
  cases h with
  | connected rest data' =>
      rw [List.append_assoc]
      exact .connected rest (data' ++ data) read

/-- What a connected client sends keeps the parties together. -/
theorem Joint.send (h : Joint opts c endpoints s) (data : Bytes) :
    Joint opts c endpoints (s.step opts c (.send data)) := by
  rw [step]
  split_ifs with hstage
  · have hclient := h.client
    rw [hstage] at hclient
    have hclient' : At c (Over s.socket) s.stage (repliesOf s.socket.log) (s.sent ++ data)
        s.read := by
      rw [hstage]
      exact hclient.send data
    exact ⟨h.inv, h.endpoints_eq, h.phase, hclient', h.asks⟩
  · exact h

/-- **Every step keeps the parties together.** -/
theorem Joint.step (h : Joint opts c endpoints s) {e : Event} (hadm : s.Admits e ∧ s.Whole e) :
    Joint opts c endpoints (s.step opts c e) := by
  cases e with
  | deliver n answer => exact h.deliver hadm.1 hadm.2
  | server e => exact h.server hadm.1
  | receive => exact h.receive
  | send data => exact h.send data

/-- **The parties fit together after every run.** -/
theorem joint_run {events : List Event}
    (h : Along (step opts c) (fun s e => s.Admits e ∧ s.Whole e) (new c endpoints) events) :
    Joint opts c endpoints (run (step opts c) (new c endpoints) events) :=
  h.invariant (fun _ _ hadm hs => hs.step hadm) (joint_new opts c endpoints)

/-- What is promoted is what the client asks for. -/
theorem Joint.promoted_eq (h : Joint opts c endpoints s) (hsome : s.socket.promoted ≠ []) :
    s.socket.promoted = [c.address] ∧ s.socket.getAuth = c.auth := by
  have hphase := h.phase
  rw [Socket.getAuth]
  generalize s.socket.dataListeners = listeners, s.socket.checks = checks, s.socket.auth = auth,
    s.socket.promoted = promoted, repliesOf s.socket.log = replies, s.taken = taken
    at hphase hsome ⊢
  cases hphase with
  | greeting | auth | checking | request | refused => exact absurd rfl hsome
  | promoted => exact ⟨rfl, rfl⟩

theorem Client.length_granted (c : Client) :
    0 < c.granted.length ∧ (c.identified → c.granted.length = 2) := by
  rw [Client.granted]
  constructor
  · split_ifs <;> simp
  · intro huser
    rw [if_pos huser]
    rfl

/-- The success reply is sent for a promoted socket only. -/
theorem Phase.promoted_of_success {listeners : List DataListener} {checks : List Check}
    {auth : Option Credentials} {promoted : List Address} {rest : List Bytes} {taken : ℕ}
    (h : Phase c info listeners checks auth promoted (c.granted ++ buildReply 0x00 :: rest) taken) :
    promoted ≠ [] := by
  obtain ⟨hpos, htwo⟩ := Client.length_granted c
  generalize hreplies : c.granted ++ buildReply 0x00 :: rest = replies at h
  have hlength := congrArg List.length hreplies
  rw [List.length_append, List.length_cons] at hlength
  cases h with
  | greeting | auth | checking =>
      simp only [List.length_cons, List.length_nil] at hlength
      omega
  | request => omega
  | promoted => exact List.cons_ne_nil _ _
  | refused hrefusal =>
      cases hrefusal with
      | unacceptable | selected =>
          simp only [List.length_cons, List.length_nil] at hlength
          omega
      | denied huser =>
          simp only [List.length_cons, List.length_nil, htwo huser] at hlength
          omega
      | request hserved rep hrep =>
          have heq : buildReply 0x00 = buildReply rep :=
            (List.cons_eq_cons.mp (List.append_cancel_left hreplies)).1
          simp only [buildReply, List.cons.injEq] at heq
          exact absurd heq.2.1.symm hrep

/-- A client is connected once the server has promoted its socket. -/
theorem Joint.promoted_of_connected (h : Joint opts c endpoints s) (hstage : s.stage = .connected) :
    s.socket.promoted ≠ [] := by
  have hclient := h.client
  rw [hstage] at hclient
  obtain ⟨rest, hreplies⟩ : ∃ rest, repliesOf s.socket.log =
      c.granted ++ buildReply 0x00 :: rest := by
    generalize repliesOf s.socket.log = replies, s.sent = sent, s.read = read at hclient
    cases hclient with
    | connected rest => exact ⟨rest, rfl⟩
  have hphase := h.phase
  rw [hreplies] at hphase
  exact hphase.promoted_of_success

/-! ## Agreement -/

/-- **The server and its client agree**, whatever the order of what they do, and however the
bytes between them are cut into chunks, as long as no greeting is cut behind an offered method
and no message while a check is pending. A connection is made of the session only for the
destination that the client asks for, `getAuth()` returns the client's credentials then, or
nothing if the client was not asked for them; `authenticate` was asked about nothing else; and
the client takes itself for connected only when a connection was made. -/
theorem agreement (opts : Options) (c : Client) (endpoints : SocketInfo) (events : List Event)
    (h : Along (step opts c) (fun s e => s.Admits e ∧ s.Whole e) (new c endpoints) events) :
    ((run (step opts c) (new c endpoints) events).socket.promoted ≠ [] →
      (run (step opts c) (new c endpoints) events).socket.promoted = [c.address] ∧
        (run (step opts c) (new c endpoints) events).socket.getAuth = c.auth) ∧
    (∀ info, .authenticate info ∈ (run (step opts c) (new c endpoints) events).socket.log →
      info = authInfo c.auth (socketInfo endpoints)) ∧
    ((run (step opts c) (new c endpoints) events).stage = .connected →
      (run (step opts c) (new c endpoints) events).socket.promoted = [c.address]) := by
  have hjoint := joint_run h
  refine ⟨hjoint.promoted_eq, hjoint.asks, fun hstage => ?_⟩
  exact (hjoint.promoted_eq (hjoint.promoted_of_connected hstage)).1

private theorem httpsPort_lt : 443 < 65536 := by omega

/-- A client with a user name that also does without. -/
private def alice : Client where
  methods := [0x00, 0x02]
  username := [0x61]
  password := [0x62]
  destination := .ipv4 ⟨93, 184, 216, 34⟩
  port := ⟨443, httpsPort_lt⟩
  methods_fit := by decide
  username_fits := by decide
  password_fits := by decide

private def aliceSocket : SocketInfo := ⟨some "10.0.0.1", some 4001, some "10.0.0.9", some 1080⟩

private def aliceEvents : List Event :=
  [.deliver 4 fun _ => .returns, .receive, .deliver 5 fun _ => .returns,
    .server (.settle 0 (.fulfilled true)), .receive, .deliver 10 fun _ => .returns,
    .server .bind, .receive]

theorem agreement_userpass :
    Along (step ⟨true⟩ alice) (fun s e => s.Admits e ∧ s.Whole e) (new alice aliceSocket)
        aliceEvents ∧
      (run (step ⟨true⟩ alice) (new alice aliceSocket) aliceEvents).stage = .connected ∧
      (run (step ⟨true⟩ alice) (new alice aliceSocket) aliceEvents).socket.promoted =
        [alice.address] := by
  have hadmits : Along (step ⟨true⟩ alice) (fun s e => s.Admits e ∧ s.Whole e)
      (new alice aliceSocket) aliceEvents := by
    simp [aliceEvents, along_cons, Admits, Whole]
    decide
  have hstage : (run (step ⟨true⟩ alice) (new alice aliceSocket) aliceEvents).stage =
      .connected := by
    decide
  exact ⟨hadmits, hstage, (agreement ⟨true⟩ alice aliceSocket aliceEvents hadmits).2.2 hstage⟩

private def motleyMethods : Bytes :=
  [0x00, 0x05, 0x01, 0x00, 0x01, 0x7F, 0x00, 0x00, 0x01, 0x00, 0x50]

private theorem motleyMethods_fit : motleyMethods.length < 256 := by decide

/-- A client that has the bytes of a request behind the first of its methods. -/
private def motley : Client where
  methods := motleyMethods
  username := []
  password := []
  destination := .ipv4 ⟨93, 184, 216, 34⟩
  port := ⟨443, httpsPort_lt⟩
  methods_fit := motleyMethods_fit
  username_fits := nil_fits
  password_fits := nil_fits

/-- A greeting that is cut behind an offered method: what is left of it is taken for the request,
and a connection is made for a destination that the client has not asked for. -/
example :
    (run (step ⟨false⟩ motley) (new motley ⟨none, none, none, none⟩)
        [.deliver 3 fun _ => .returns, .deliver 10 fun _ => .returns]).socket.promoted =
      [⟨"127.0.0.1", 80, 0x01⟩] ∧ motley.address = ⟨"93.184.216.34", 443, 0x01⟩ := by
  decide +kernel

end Session

end Proxinator.Socks5
