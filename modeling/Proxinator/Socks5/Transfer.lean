import Proxinator.Socks5.Agreement
import Proxinator.Socks5.Delivery

/-!
# What a session carries to the target

A chunk that arrives between the request and `bind` is lost, as is what lies behind the request
in its own chunk. A client that waits for the reply to its request sends neither: the reply is
written by `bind`, so that all that follows the request finds the pipe. So nothing that such a
client sends is lost (`transfer`), however the bytes are cut and whenever the handler binds.

## Main definitions

* `Client.setup` — what a client sends before it is connected.
* `Carried` — how what the target was given goes with what the client has sent.

## Main result

* `transfer` — the target is given what the client sends, in order, each byte once.
-/

namespace Proxinator.Socks5

open Lib

/-- All that a client sends before it is connected. -/
def Client.setup (c : Client) : Bytes := c.introduction ++ c.request

namespace Session

variable {opts : Options} {c : Client} {endpoints : SocketInfo} {s : Session}

/-- A connection is bound once. -/
def BindsOnce (s : Session) (e : Event) : Prop :=
  e = .server .bind → .pipe ∉ s.socket.dataListeners

/-- **What the target was given goes with what the client has sent.** Before `bind` the client is
not connected and has sent no more than its request; once that made a connection, the server
has taken all of it. From `bind` on the target is given what is taken. -/
structure Carried (c : Client) (s : Session) : Prop where
  taken_le : s.taken ≤ s.sent.length
  short : s.stage ≠ .connected → s.sent.length ≤ c.setup.length
  unbound : .pipe ∉ s.socket.dataListeners →
    delivered s.socket.log = [] ∧ buildReply 0x00 ∉ repliesOf s.socket.log ∧
      (s.socket.promoted ≠ [] → c.setup.length ≤ s.taken)
  bound : .pipe ∈ s.socket.dataListeners →
    s.socket.promoted ≠ [] ∧ s.socket.dataListeners = [.pipe] ∧ c.setup.length ≤ s.taken ∧
      delivered s.socket.log = (s.sent.take s.taken).drop c.setup.length

theorem carried_new (c : Client) (endpoints : SocketInfo) : Carried c (new c endpoints) where
  taken_le := Nat.zero_le _
  short _ := by
    have hle := length_greeting_le c
    rw [Client.setup, List.length_append]
    exact le_trans hle (Nat.le_add_right _ _)
  unbound _ := ⟨rfl, by simp [new, Socket.accepted, repliesOf], fun hne => absurd rfl hne⟩
  bound hpipe := by simp [new, Socket.accepted] at hpipe

/-! ## Before the pipe -/

theorem buildReply_notMem_granted (c : Client) : buildReply 0x00 ∉ c.granted := by
  rw [Client.granted, Client.selection]
  split_ifs <;> simp [buildReply]

/-- A socket of which no connection was made has no pipe, and was not sent the reply of
success. -/
theorem Phase.unpromoted {info : SocketInfo} {listeners : List DataListener} {checks : List Check}
    {auth : Option Credentials} {replies : List Bytes} {taken : ℕ}
    (h : Phase c info listeners checks auth [] replies taken) :
    .pipe ∉ listeners ∧ buildReply 0x00 ∉ replies := by
  have hgranted := buildReply_notMem_granted c
  have hselection : buildReply 0x00 ≠ c.selection := by
    rw [Client.selection]
    split_ifs <;> simp [buildReply]
  generalize hpromoted : ([] : List Address) = promoted at h
  cases h with
  | greeting => simp
  | auth => simpa using hselection
  | checking => simpa using hselection
  | request => exact ⟨by simp, hgranted⟩
  | promoted => cases hpromoted
  | refused hrefusal =>
      refine ⟨by simp, ?_⟩
      cases hrefusal with
      | unacceptable => simp [buildReply]
      | selected => simpa using hselection
      | denied =>
          have hstatus : buildReply 0x00 ≠ [0x01, 0x01] := by simp [buildReply]
          simpa using ⟨hselection, hstatus⟩
      | request _ rep hrep =>
          simp only [List.mem_append, not_or, List.mem_singleton]
          refine ⟨hgranted, fun heq => ?_⟩
          simp only [buildReply, List.cons.injEq] at heq
          exact hrep heq.2.1.symm

/-- A socket without the pipe of which a connection was made has no `data` listener. -/
theorem Phase.deaf {info : SocketInfo} {listeners : List DataListener} {checks : List Check}
    {auth : Option Credentials} {promoted : List Address} {replies : List Bytes} {taken : ℕ}
    (h : Phase c info listeners checks auth promoted replies taken) (hne : promoted ≠ [])
    (hpipe : .pipe ∉ listeners) : listeners = [] := by
  cases h with
  | greeting | auth | checking | request | refused => exact absurd rfl hne
  | promoted _ _ hall =>
      refine List.eq_nil_iff_forall_not_mem.mpr fun listener hl => ?_
      obtain rfl := hall listener hl
      exact hpipe hl

/-- A client that is connected was sent the reply of success. -/
theorem Joint.success (h : Joint opts c endpoints s) (hstage : s.stage = .connected) :
    buildReply 0x00 ∈ repliesOf s.socket.log := by
  have hclient := h.client
  rw [hstage] at hclient
  generalize repliesOf s.socket.log = replies, s.sent = sent, s.read = read at hclient ⊢
  cases hclient with
  | connected rest => simp

/-- Before `bind` the client has sent no more than its request. -/
theorem Carried.length_sent_le (h : Carried c s) (hjoint : Joint opts c endpoints s)
    (hpipe : .pipe ∉ s.socket.dataListeners) : s.sent.length ≤ c.setup.length :=
  h.short fun hstage => (h.unbound hpipe).2.1 (hjoint.success hstage)

end Session

/-- Only the request listener makes a connection. -/
theorem Socket.dataListeners_of_promotes {opts : Options} {s : Socket} {answer : AuthInfo → Answer}
    {chunk : Bytes} (hs : s.Inv opts) (hnone : s.promoted = [])
    (h : (s.onData opts answer chunk).promoted ≠ []) : s.dataListeners = [.request] := by
  have huntouched : Untouched s (s.onData opts answer chunk) → s.dataListeners = [.request] :=
    fun hu => absurd (hu.promoted_eq.trans hnone) h
  rcases hs.stage with ⟨-, hprogress⟩ | ⟨address, hp⟩
  · generalize hlisteners : s.dataListeners = listeners at hprogress huntouched
    generalize s.checks = checks, s.auth = auth, transcript s.log = t at hprogress
    cases hprogress with
    | request => rfl
    | greeting =>
        refine huntouched ?_
        rw [onData_greeting answer chunk hlisteners]
        exact ((Untouched.taken s chunk).trans (Untouched.onGreeting opts answer chunk _)).afterHandlers
    | auth g hg =>
        refine huntouched ?_
        rw [onData_auth answer chunk hlisteners]
        exact ((Untouched.taken s chunk).trans (Untouched.onAuth opts answer _ chunk _)).afterHandlers
    | checking | checkingNoAuth | refused =>
        refine huntouched ?_
        rw [onData, if_pos hlisteners]
        exact Untouched.act s rfl
  · rw [hp.promoted_eq] at hnone
    cases hnone

/-- Only `bind` writes the reply of success for a connection. -/
theorem Socket.success_step {opts : Options} {s : Socket} {e : Event} (hdata : e.chunk = none)
    (hbind : e ≠ .bind) (hs : s.Inv opts) (hne : s.promoted ≠ [])
    (h : buildReply 0x00 ∉ repliesOf s.log) :
    buildReply 0x00 ∉ repliesOf (s.step opts e).log := by
  have hquiet : ∀ {s'}, Quiet s s' → buildReply 0x00 ∉ repliesOf s'.log := by
    intro s' hq
    rwa [hq.repliesOf_eq]
  cases e with
  | data chunk answer => cases hdata
  | bind => exact absurd rfl hbind
  | settle i result =>
      rcases hs.stage with ⟨hnil, -⟩ | ⟨address, hp⟩
      · exact absurd hnil hne
      · simpa [step, onSettle, hp.checks_eq] using h
  | handshakeTimeout =>
      rw [step]
      split_ifs
      · exact hquiet ⟨rfl, rfl, rfl, rfl, rfl, rfl, rfl, [], (List.append_nil _).symm, by simp⟩
      · exact h
  | error code =>
      rw [step]
      split_ifs
      · exact h
      · exact hquiet (Quiet.onError code (List.ne_nil_of_mem hs.guarded))
  | close =>
      rw [step]
      split_ifs
      · exact h
      · exact hquiet (Quiet.onClose s)
  | refuse =>
      have hreply : buildReply 0x00 ≠ buildReply 0x01 := by decide
      rw [step, if_neg hne]
      simpa [write, endSocket, act, repliesOf, hreply] using h
  | «end» =>
      rw [step, if_neg hne]
      simpa [endSocket, act, repliesOf] using h
  | destroy =>
      exact hquiet ⟨rfl, rfl, rfl, rfl, rfl, rfl, rfl, [], (List.append_nil _).symm, by simp⟩

namespace Session

variable {opts : Options} {c : Client} {endpoints : SocketInfo} {s : Session}

/-! ## The steps -/

/-- The request makes a connection of the socket when all of it is taken. -/
theorem Joint.taken_of_promotes (h : Joint opts c endpoints s) {n : ℕ} {address : Address}
    (hsent : s.taken + n ≤ s.sent.length) (hn : 0 < n)
    (hlisteners : s.socket.dataListeners = [.request]) (hpromoted : s.socket.promoted = [])
    (hparse : parseAddress (s.chunk n) = some address) : c.setup.length ≤ s.taken + n := by
  have hclient := h.client
  have hphase := h.phase
  have hclosing : ¬ Over s.socket := by simp [Over, hlisteners, hpromoted]
  rw [hlisteners, hpromoted] at hphase
  generalize repliesOf s.socket.log = replies at hphase hclient
  generalize s.socket.checks = checks, s.socket.auth = auth at hphase
  obtain ⟨taken, htaken⟩ : ∃ taken, taken = s.taken := ⟨_, rfl⟩
  rw [← htaken] at hphase
  generalize hpromoted' : ([] : List Address) = promoted at hphase
  cases hphase with
  | promoted => cases hpromoted'
  | request hserved hintroduced =>
      have hle := hintroduced.le
      have hle' := length_greeting_le c
      rw [Client.setup, List.length_append]
      rcases hclient.sent_cases hclosing List.prefix_rfl with hs | ⟨-, -, hs⟩ | ⟨-, hs⟩
      · rw [hs] at hsent
        omega
      · rw [hs] at hsent
        omega
      · rw [hs, List.length_append] at hsent
        rcases hintroduced with hintroduced | ⟨-, hintroduced⟩
        · have hchunk : s.chunk n = c.request.take n := by
            rw [chunk, hs, ← htaken, hintroduced, List.drop_left]
          rw [hchunk] at hparse
          have hlength := congrArg List.length
            (Client.eq_request (List.take_prefix n c.request) hparse)
          rw [List.length_take] at hlength
          omega
        · rw [List.length_append] at hintroduced
          omega

/-- What is taken in addition is what the chunk has. -/
theorem drop_take_chunk {n k : ℕ} (hk : k ≤ s.taken) (hsent : s.taken + n ≤ s.sent.length) :
    (s.sent.take (s.taken + n)).drop k = (s.sent.take s.taken).drop k ++ s.chunk n := by
  have hlength : k ≤ (s.sent.take s.taken).length := by
    rw [List.length_take]
    omega
  rw [List.take_add, List.drop_append_of_le_length hlength, chunk]

/-- **A chunk that is delivered before `bind` belongs to the handshake; behind it, it is given to
the target.** -/
theorem Carried.deliver (h : Carried c s) (hjoint : Joint opts c endpoints s) {n : ℕ}
    {answer : AuthInfo → Answer} (hadm : s.Admits (.deliver n answer))
    (hcut : s.Whole (.deliver n answer)) : Carried c (s.step opts c (.deliver n answer)) := by
  have hjoint' := hjoint.deliver hadm hcut
  obtain ⟨hn, hsent, halive⟩ := hadm
  have hdata : s.socket.step opts (.data (s.chunk n) answer) =
      s.socket.onData opts answer (s.chunk n) := by
    rw [Socket.step, hjoint.inv.flowing, halive, if_neg (by simp)]
  rw [step, hdata] at hjoint' ⊢
  by_cases hpipe : .pipe ∈ s.socket.dataListeners
  · obtain ⟨hpromoted, hlisteners, htaken, hdelivered⟩ := h.bound hpipe
    have hpiped : s.socket.onData opts answer (s.chunk n) =
        (s.socket.act (.received (s.chunk n))).act (.piped (s.chunk n)) := by
      rw [Socket.onData, hlisteners, if_neg (by simp)]
      rfl
    rw [hpiped]
    refine ⟨hsent, h.short, fun hnone => absurd hpipe hnone, fun _ => ?_⟩
    refine ⟨hpromoted, hlisteners, le_trans htaken (Nat.le_add_right _ _), ?_⟩
    have hchunk : delivered [.received (s.chunk n), .piped (s.chunk n)] = s.chunk n :=
      List.append_nil _
    rw [drop_take_chunk htaken hsent, ← hdelivered]
    simp only [Socket.act, List.append_assoc, List.cons_append, List.nil_append,
      delivered_append, hchunk]
  · obtain ⟨hdelivered, hsuccess, htaken⟩ := h.unbound hpipe
    by_cases hpromoted : s.socket.promoted = []
    · rcases Socket.onData_cases hjoint.inv hpromoted answer (s.chunk n) with
        huntouched | ⟨address, hparse, heq⟩
      · have hnone := huntouched.promoted_eq.trans hpromoted
        have hphase := hjoint'.phase
        dsimp only at hphase
        rw [hnone] at hphase
        obtain ⟨hpipe', hsuccess'⟩ := hphase.unpromoted
        refine ⟨hsent, h.short, fun _ => ?_, fun hmem => absurd hmem hpipe'⟩
        exact ⟨huntouched.delivered_eq.trans hdelivered, hsuccess', fun hne => absurd hnone hne⟩
      · -- the request, of which a connection is made
        have hnow : (s.socket.onData opts answer (s.chunk n)).promoted ≠ [] := by
          rw [heq]
          simp [Socket.promote, Socket.act]
        have hlisteners := Socket.dataListeners_of_promotes hjoint.inv hpromoted hnow
        have hall := hjoint.taken_of_promotes hsent hn hlisteners hpromoted hparse
        rw [heq]
        refine ⟨hsent, h.short, fun _ => ⟨?_, ?_, fun _ => hall⟩, fun hmem => ?_⟩
        · simpa [Socket.taken, Socket.promote, Socket.act, delivered, Action.pipedChunk]
            using hdelivered
        · simpa [Socket.taken, Socket.promote, Socket.act, repliesOf] using hsuccess
        · simp [Socket.taken, Socket.promote, Socket.act] at hmem
    · -- nothing is under way between the request and `bind`
      have hle := h.length_sent_le hjoint hpipe
      have hall := htaken hpromoted
      omega

/-- A step at the server that is not data and leaves the pipe alone. -/
theorem Carried.kept {socket : Socket} (h : Carried c s)
    (hjoint' : Joint opts c endpoints { s with socket := socket })
    (hdelivered : delivered socket.log = delivered s.socket.log)
    (hpromoted : socket.promoted = s.socket.promoted)
    (hlisteners : s.socket.promoted ≠ [] → socket.dataListeners = s.socket.dataListeners)
    (hreplies : s.socket.promoted ≠ [] → buildReply 0x00 ∉ repliesOf s.socket.log →
      buildReply 0x00 ∉ repliesOf socket.log) :
    Carried c { s with socket := socket } := by
  by_cases hnone : s.socket.promoted = []
  · have hphase := hjoint'.phase
    dsimp only at hphase
    rw [hpromoted, hnone] at hphase
    obtain ⟨hpipe', hsuccess'⟩ := hphase.unpromoted
    refine ⟨h.taken_le, h.short, fun _ => ⟨?_, hsuccess', fun hne => ?_⟩, fun hmem => ?_⟩
    · rw [hdelivered]
      refine (h.unbound fun hpipe => ?_).1
      exact (h.bound hpipe).1 hnone
    · exact absurd (hpromoted.trans hnone) hne
    · exact absurd hmem hpipe'
  · refine ⟨h.taken_le, h.short, fun hpipe => ?_, fun hpipe => ?_⟩
    · rw [hlisteners hnone] at hpipe
      obtain ⟨hd, hs, ht⟩ := h.unbound hpipe
      exact ⟨hdelivered.trans hd, hreplies hnone hs, fun _ => ht hnone⟩
    · rw [hlisteners hnone] at hpipe
      obtain ⟨-, hl, ht, hd⟩ := h.bound hpipe
      refine ⟨?_, (hlisteners hnone).trans hl, ht, hdelivered.trans hd⟩
      rw [hpromoted]
      exact hnone

/-- **What happens at the server, other than data, carries on.** -/
theorem Carried.server (h : Carried c s) (hjoint : Joint opts c endpoints s) {e : Socks5.Event}
    (hadm : s.Admits (.server e)) (honce : s.BindsOnce (.server e)) :
    Carried c (s.step opts c (.server e)) := by
  have hjoint' := hjoint.server hadm
  rw [step] at hjoint' ⊢
  by_cases hbind : e = .bind
  · subst hbind
    have hpipe := honce rfl
    rw [Socket.step] at hjoint' ⊢
    split_ifs with hnone
    · exact h
    · -- the client waits for the reply that is written now
      obtain ⟨hdelivered, -, htaken⟩ := h.unbound hpipe
      have hlisteners := hjoint.phase.deaf hnone hpipe
      have hle := h.length_sent_le hjoint hpipe
      refine ⟨h.taken_le, h.short, fun hmem => ?_, fun _ => ⟨hnone, ?_, htaken hnone, ?_⟩⟩
      · simp [Socket.bind] at hmem
      · simp [Socket.bind, Socket.write, Socket.act, hlisteners]
      · rw [(Socket.Untouched.bind s.socket).delivered_eq, hdelivered]
        exact (List.drop_eq_nil_of_le ((List.length_take_le' _ _).trans hle)).symm
  · have hdata : e.chunk = none := by
      cases e with
      | data chunk answer => exact absurd rfl (hadm chunk answer)
      | settle | handshakeTimeout | error | close | bind | refuse | «end» | destroy => rfl
    obtain ⟨hdelivered, hpromoted, hlisteners⟩ := Socket.step_kept hdata hbind hjoint.inv
    refine h.kept hjoint' hdelivered hpromoted hlisteners fun hne hsuccess => ?_
    exact Socket.success_step hdata hbind hjoint.inv hne hsuccess

/-- The client sends more. -/
theorem Carried.extend (h : Carried c s) {stage : Stage} {message : Bytes} {read : ℕ}
    (hshort : stage ≠ .connected → (s.sent ++ message).length ≤ c.setup.length) :
    Carried c { s with stage := stage, sent := s.sent ++ message, read := read } where
  taken_le := by
    rw [List.length_append]
    exact le_trans h.taken_le (Nat.le_add_right _ _)
  short := hshort
  unbound := h.unbound
  bound hpipe := by
    obtain ⟨hpromoted, hlisteners, htaken, hdelivered⟩ := h.bound hpipe
    refine ⟨hpromoted, hlisteners, htaken, ?_⟩
    rw [List.take_append_of_le_length h.taken_le]
    exact hdelivered

/-- What a client that is not connected has sent belongs to the handshake. -/
theorem Joint.length_sent_le (h : Joint opts c endpoints s) (hconnected : s.stage ≠ .connected)
    (hfailed : s.stage ≠ .failed) : s.sent.length ≤ c.setup.length := by
  have hle := length_greeting_le c
  have hclient := h.client
  rw [Client.setup, List.length_append]
  generalize hstage : s.stage = stage at hclient hconnected hfailed
  generalize repliesOf s.socket.log = replies, s.sent = sent, s.read = read at hclient ⊢
  cases hclient with
  | method => omega
  | status => omega
  | reply => rw [List.length_append]
  | connected => exact absurd rfl hconnected
  | failed => exact absurd rfl hfailed

theorem Carried.receive (h : Carried c s) (hjoint : Joint opts c endpoints s) :
    Carried c (s.receive c) := by
  have hjoint' := hjoint.receive
  -- the client does nothing, gives up, or sends the next message
  have hcases : s.receive c = s ∨ (∃ read, s.stage ≠ .connected ∧
      s.receive c = s.proceed .failed [] read) ∨
      ∃ stage message read, stage ≠ .failed ∧ s.receive c = s.proceed stage message read := by
    rw [Session.receive]
    split
    next hstage _ =>
      split_ifs
      · exact Or.inr (Or.inr ⟨_, _, _, by simp, rfl⟩)
      · exact Or.inr (Or.inr ⟨_, _, _, by simp, rfl⟩)
      · exact Or.inr (Or.inl ⟨2, by simp [hstage], rfl⟩)
    next hstage _ =>
      split_ifs
      · exact Or.inr (Or.inr ⟨_, _, _, by simp, rfl⟩)
      · exact Or.inr (Or.inl ⟨2, by simp [hstage], rfl⟩)
    next hstage _ =>
      split_ifs
      · exact Or.inr (Or.inr ⟨_, _, _, by simp, rfl⟩)
      · exact Or.inr (Or.inl ⟨10, by simp [hstage], rfl⟩)
    next => exact Or.inl rfl
  rcases hcases with heq | ⟨read, hstage, heq⟩ | ⟨stage, message, read, hstage, heq⟩
  · rw [heq]
    exact h
  · rw [heq]
    refine h.extend fun _ => ?_
    rw [List.append_nil]
    exact h.short hstage
  · rw [heq] at hjoint' ⊢
    exact h.extend fun hconnected => hjoint'.length_sent_le hconnected hstage

/-- **In every run the target was given what it should have been.** -/
theorem carried_run {events : List Event}
    (h : Along (step opts c) (fun s e => s.Admits e ∧ s.Whole e ∧ s.BindsOnce e)
      (new c endpoints) events) :
    Joint opts c endpoints (run (step opts c) (new c endpoints) events) ∧
      Carried c (run (step opts c) (new c endpoints) events) := by
  refine h.invariant (P := fun s => Joint opts c endpoints s ∧ Carried c s)
    (fun s e hadm hs => ?_) ⟨joint_new opts c endpoints, carried_new c endpoints⟩
  obtain ⟨hjoint, hcarried⟩ := hs
  cases e with
  | deliver n answer =>
      exact ⟨hjoint.deliver hadm.1 hadm.2.1, hcarried.deliver hjoint hadm.1 hadm.2.1⟩
  | server e => exact ⟨hjoint.server hadm.1, hcarried.server hjoint hadm.1 hadm.2.2⟩
  | receive => exact ⟨hjoint.receive, hcarried.receive hjoint⟩
  | send data =>
      refine ⟨hjoint.send data, ?_⟩
      rw [step]
      split_ifs with hstage
      · exact hcarried.extend fun hne => absurd hstage hne
      · exact hcarried

/-- **A client that waits for the reply to its request loses nothing**, whatever the order of
what the parties do, and however the bytes are cut: at every moment the target was given what
the server has taken behind the request, in order, each byte once; and once the server has
taken all that was sent, that is all that the client has sent since it is connected. -/
theorem transfer (opts : Options) (c : Client) (endpoints : SocketInfo) (events : List Event)
    (h : Along (step opts c) (fun s e => s.Admits e ∧ s.Whole e ∧ s.BindsOnce e)
      (new c endpoints) events) :
    let s := run (step opts c) (new c endpoints) events
    delivered s.socket.log = (s.sent.take s.taken).drop c.setup.length ∧
      (s.stage = .connected → ∃ data, s.sent = c.setup ++ data ∧
        delivered s.socket.log <+: data ∧
        (s.taken = s.sent.length → delivered s.socket.log = data)) := by
  obtain ⟨hjoint, hcarried⟩ := carried_run h
  intro s
  have hdelivered : delivered s.socket.log = (s.sent.take s.taken).drop c.setup.length := by
    by_cases hpipe : .pipe ∈ s.socket.dataListeners
    · exact (hcarried.bound hpipe).2.2.2
    · have hle := hcarried.length_sent_le hjoint hpipe
      rw [(hcarried.unbound hpipe).1]
      exact (List.drop_eq_nil_of_le ((List.length_take_le' _ _).trans hle)).symm
  refine ⟨hdelivered, fun hstage => ?_⟩
  obtain ⟨data, hsent⟩ : ∃ data, s.sent = c.setup ++ data := by
    have hclient := hjoint.client
    have hstage' : (run (step opts c) (new c endpoints) events).stage = .connected := hstage
    rw [hstage'] at hclient
    generalize hreplies : repliesOf (run (step opts c) (new c endpoints) events).socket.log =
      replies at hclient
    change ∃ data, (run (step opts c) (new c endpoints) events).sent = c.setup ++ data
    generalize (run (step opts c) (new c endpoints) events).sent = sent at hclient ⊢
    generalize (run (step opts c) (new c endpoints) events).read = read at hclient
    cases hclient with
    | connected rest data => exact ⟨data, rfl⟩
  refine ⟨data, hsent, ?_, fun hall => ?_⟩
  · rw [hdelivered, List.drop_take, hsent, List.drop_left]
    exact List.take_prefix _ _
  · rw [hdelivered, hall, List.take_length, hsent, List.drop_left]

/-! ## A run -/

private theorem httpPort_lt : 80 < 65536 := by omega

private theorem method_fits : ([0x00] : Bytes).length < 256 := by decide

/-- A client without credentials. -/
private def guest : Client where
  methods := [0x00]
  username := []
  password := []
  destination := .ipv4 ⟨10, 20, 30, 40⟩
  port := ⟨80, httpPort_lt⟩
  methods_fit := method_fits
  username_fits := nil_fits
  password_fits := nil_fits

private def guestSocket : SocketInfo := ⟨none, none, none, none⟩

/-- The client is connected, and sends two bytes. -/
private def guestEvents : List Event :=
  [.deliver 3 fun _ => .returns, .receive, .deliver 10 fun _ => .returns, .server .bind, .receive,
    .send [0x68, 0x69], .deliver 2 fun _ => .returns]

theorem transfer_two_bytes :
    delivered (run (step ⟨false⟩ guest) (new guest guestSocket) guestEvents).socket.log =
      [0x68, 0x69] := by
  have hadmits : Along (step ⟨false⟩ guest) (fun s e => s.Admits e ∧ s.Whole e ∧ s.BindsOnce e)
      (new guest guestSocket) guestEvents := by
    simp [guestEvents, along_cons, Admits, Whole, BindsOnce]
    decide
  rw [(transfer ⟨false⟩ guest guestSocket guestEvents hadmits).1]
  decide

end Session

end Proxinator.Socks5
