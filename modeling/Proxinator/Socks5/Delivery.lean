import Proxinator.Socks5.Accounting

/-!
# What the target is given of the client's bytes

A client may send on as soon as it has sent its request: bytes behind the request in the same
chunk, chunks that arrive before the user's handler calls `bind`, and chunks after it. The
server reads the request out of its chunk and drops the rest; from then on the socket flows
without a `data` listener until `bind` pipes it. So the target is given the chunks after
`bind`, and the client's bytes are complete exactly if there was nothing before them.

## Main results

* `onData_cases` — what a chunk does to a socket that is not promoted.
* `delivered_run` — what is piped after `bind`.
* `delivery_iff` — when the target is given all that the client sends after its request.
-/

namespace Proxinator.Socks5

open Lib

/-- The chunk that an action pipes to the target. -/
def Action.pipedChunk : Action → Option Bytes
  | .piped chunk => some chunk
  | _ => none

/-- The bytes that were piped to the target. -/
def delivered (log : List Action) : Bytes := (log.filterMap Action.pipedChunk).flatten

@[simp] theorem delivered_append (log log' : List Action) :
    delivered (log ++ log') = delivered log ++ delivered log' := by
  simp [delivered]

theorem delivered_replicate (n : ℕ) (chunk : Bytes) :
    delivered (List.replicate n (.piped chunk)) = (List.replicate n chunk).flatten := by
  have hpiped : Action.pipedChunk (.piped chunk) = some chunk := rfl
  rw [delivered, List.filterMap_replicate_of_some hpiped]

/-- The chunk of an event. -/
def Event.chunk : Event → Option Bytes
  | .data chunk _ => some chunk
  | _ => none

/-- The bytes that the client sends in the course of the events. -/
def sent (events : List Event) : Bytes := (events.filterMap Event.chunk).flatten

/-- The length of the request at the front of a chunk, up to the end of its port. -/
def requestLength (r : Bytes) : ℕ :=
  if r[3]? = some atypIPv4 then 10
  else if r[3]? = some atypDomain then 5 + (r[4]?.getD 0).toNat + 2
  else 22

namespace Socket

variable {opts : Options} {s : Socket}

/-- A socket emits data only while it flows. -/
def Emits (s : Socket) : Event → Prop
  | .data _ _ => s.paused = false ∧ s.destroyed = false
  | _ => True

theorem Untouched.delivered_eq {s s' : Socket} (h : Untouched s s') :
    delivered s'.log = delivered s.log := by
  obtain ⟨extra, hlog, hextra⟩ := h.log_eq
  have hnone : extra.filterMap Action.pipedChunk = [] := by
    apply List.filterMap_eq_nil_iff.mpr
    intro action haction
    have hcounted := hextra action haction
    cases action <;> simp_all [Action.isCounted, Action.pipedChunk]
  rw [hlog, delivered_append, delivered, delivered, hnone]
  simp

/-! ## Before the connection -/

theorem Untouched.taken (s : Socket) (chunk : Bytes) : Untouched s (s.taken chunk) :=
  ⟨rfl, rfl, rfl, rfl, id, id, [.received chunk], rfl, by simp [Action.isCounted]⟩

theorem Untouched.afterHandlers {result : Except Socket Socket}
    (h : Untouched s (stateOf result)) : Untouched s (afterHandlers result) := by
  cases result with
  | ok s' => exact h
  | error s' => exact h.trans (Untouched.act s' rfl)

/-- **A chunk makes a connection, or it leaves the socket alone**, if none was made before. A
connection is made by the request listener, which is the only one. -/
theorem onData_cases (hs : s.Inv opts) (hpromoted : s.promoted = []) (answer : AuthInfo → Answer)
    (chunk : Bytes) :
    Untouched s (s.onData opts answer chunk) ∨
      ∃ address, parseAddress chunk = some address ∧
        s.onData opts answer chunk = (s.taken chunk).promote address := by
  rcases hs.stage with ⟨-, hprogress⟩ | ⟨address, hp⟩
  · generalize hlisteners : s.dataListeners = listeners at hprogress
    generalize s.checks = checks at hprogress
    generalize s.auth = auth at hprogress
    generalize transcript s.log = t at hprogress
    cases hprogress with
    | greeting =>
        have hgreeting := (Untouched.taken s chunk).trans
          (Untouched.onGreeting opts answer chunk (s.taken chunk))
        rw [onData_greeting answer chunk hlisteners]
        exact Or.inl hgreeting.afterHandlers
    | auth g hg =>
        have hauth := (Untouched.taken s chunk).trans
          (Untouched.onAuth opts answer (socketInfo s.endpoints) chunk (s.taken chunk))
        rw [onData_auth answer chunk hlisteners]
        exact Or.inl hauth.afterHandlers
    | request auth t happroved =>
        rw [onData_request answer chunk hlisteners]
        rcases onRequest_cases chunk (s.taken chunk) with h | h
        · exact Or.inl ((Untouched.taken s chunk).trans h)
        · exact Or.inr h
    | checking | checkingNoAuth | refused =>
        rw [onData, if_pos hlisteners]
        exact Or.inl (Untouched.act s rfl)
  · rw [hp.promoted_eq] at hpromoted
    cases hpromoted

/-- Nothing is piped before `bind`, and a socket that is promoted has no `data` listener. -/
structure Unbound (s : Socket) : Prop where
  deaf : s.promoted ≠ [] → s.dataListeners = []
  delivered_eq : delivered s.log = []

theorem unbound_accepted (endpoints : SocketInfo) : (accepted endpoints).Unbound :=
  ⟨fun h => absurd rfl h, rfl⟩

theorem Quiet.delivered_eq {s s' : Socket} (h : Quiet s s') :
    delivered s'.log = delivered s.log := by
  obtain ⟨extra, hlog, hextra⟩ := h.log_eq
  have hnone : extra.filterMap Action.pipedChunk = [] := by
    apply List.filterMap_eq_nil_iff.mpr
    intro action haction
    rcases hextra action haction with rfl | ⟨code, connection, rfl⟩ <;> rfl
  rw [hlog, delivered_append, delivered, delivered, hnone]
  simp

/-- What an event other than data and `bind` leaves alone: what was piped, the promotion, and
the `data` listeners of a promoted socket. -/
theorem step_kept {e : Event} (hdata : e.chunk = none) (hbind : e ≠ .bind) (hs : s.Inv opts) :
    delivered (s.step opts e).log = delivered s.log ∧ (s.step opts e).promoted = s.promoted ∧
      (s.promoted ≠ [] → (s.step opts e).dataListeners = s.dataListeners) := by
  have hquiet : ∀ {s'}, Quiet s s' → delivered s'.log = delivered s.log ∧
      s'.promoted = s.promoted ∧ (s.promoted ≠ [] → s'.dataListeners = s.dataListeners) :=
    fun h => ⟨h.delivered_eq, h.promoted_eq, fun _ => h.dataListeners_eq⟩
  cases e with
  | data chunk answer => cases hdata
  | settle i result =>
      have huntouched := Untouched.onSettle i result s
      refine ⟨huntouched.delivered_eq, huntouched.promoted_eq, fun hne => ?_⟩
      rcases hs.stage with ⟨hnil, -⟩ | ⟨address, hp⟩
      · exact absurd hnil hne
      · simp [step, onSettle, hp.checks_eq]
  | handshakeTimeout =>
      rw [step]
      split_ifs
      · exact hquiet ⟨rfl, rfl, rfl, rfl, rfl, rfl, rfl, [], (List.append_nil _).symm, by simp⟩
      · exact hquiet (Quiet.refl s)
  | error code =>
      rw [step]
      split_ifs
      · exact hquiet (Quiet.refl s)
      · exact hquiet (Quiet.onError code (List.ne_nil_of_mem hs.guarded))
  | close =>
      rw [step]
      split_ifs
      · exact hquiet (Quiet.refl s)
      · exact hquiet (Quiet.onClose s)
  | bind => exact absurd rfl hbind
  | refuse =>
      rw [step]
      split_ifs
      · exact hquiet (Quiet.refl s)
      · have huntouched := (Untouched.write s (buildReply 0x01)).trans (Untouched.endSocket _)
        exact ⟨huntouched.delivered_eq, rfl, fun _ => rfl⟩
  | «end» =>
      rw [step]
      split_ifs
      · exact hquiet (Quiet.refl s)
      · exact ⟨(Untouched.endSocket s).delivered_eq, rfl, fun _ => rfl⟩
  | destroy =>
      exact hquiet ⟨rfl, rfl, rfl, rfl, rfl, rfl, rfl, [], (List.append_nil _).symm, by simp⟩

/-- **Until `bind` nothing is piped.** -/
theorem unbound_step {e : Event} (hbind : e ≠ .bind) (hs : s.Inv opts) (hunbound : s.Unbound) :
    (s.step opts e).Unbound := by
  cases hchunk : e.chunk with
  | none =>
      obtain ⟨hdelivered, hpromoted, hlisteners⟩ := step_kept (e := e) hchunk hbind hs
      constructor
      · intro hne
        rw [hpromoted] at hne
        rw [hlisteners hne, hunbound.deaf hne]
      · rw [hdelivered, hunbound.delivered_eq]
  | some chunk =>
      cases e with
      | data chunk' answer =>
          rw [step]
          split_ifs
          · exact hunbound
          by_cases hpromoted : s.promoted = []
          · rcases onData_cases hs hpromoted answer chunk' with h | ⟨address, -, h⟩
            · constructor
              · intro hne
                exact absurd (h.promoted_eq.trans hpromoted) hne
              · rw [h.delivered_eq, hunbound.delivered_eq]
            · rw [h]
              constructor
              · intro _
                rfl
              · simpa [taken, promote, act, delivered, Action.pipedChunk]
                  using hunbound.delivered_eq
          · rw [onData, if_pos (hunbound.deaf hpromoted)]
            constructor
            · intro _
              exact hunbound.deaf hpromoted
            · rw [(Untouched.act s rfl).delivered_eq, hunbound.delivered_eq]
      | settle | handshakeTimeout | error | close | bind | refuse | «end» | destroy => cases hchunk

/-! ## The connection -/

/-- A promoted socket whose data goes to `n` pipes. -/
structure Piping (opts : Options) (n : ℕ) (s : Socket) : Prop where
  inv : s.Inv opts
  promoted : s.promoted ≠ []
  listeners_eq : s.dataListeners = List.replicate n .pipe

/-- What `n` pipes are given of an event. -/
def pipedOf (n : ℕ) (e : Event) : Bytes := (List.replicate n (e.chunk.getD [])).flatten

/-- **Every pipe is given each chunk once.** -/
theorem piping_step {n : ℕ} {e : Event} (hbind : e ≠ .bind) (hemits : s.Emits e)
    (hs : s.Piping opts n) :
    (s.step opts e).Piping opts n ∧
      delivered (s.step opts e).log = delivered s.log ++ pipedOf n e := by
  cases hchunk : e.chunk with
  | none =>
      obtain ⟨hdelivered, hpromoted, hlisteners⟩ := step_kept (e := e) hchunk hbind hs.inv
      refine ⟨⟨inv_step hs.inv, ?_, ?_⟩, ?_⟩
      · rw [hpromoted]
        exact hs.promoted
      · rw [hlisteners hs.promoted, hs.listeners_eq]
      · simp [hdelivered, pipedOf, hchunk]
  | some chunk =>
      cases e with
      | data chunk' answer =>
          obtain rfl : chunk' = chunk := Option.some.inj hchunk
          have hinv := inv_step (e := .data chunk' answer) hs.inv
          obtain ⟨hflowing, halive⟩ := hemits
          rw [step, hflowing, halive] at hinv ⊢
          simp only [Bool.or_self, Bool.false_eq_true, if_false] at hinv ⊢
          rw [onData] at hinv ⊢
          split_ifs at hinv ⊢ with hnil
          · have hzero : n = 0 := by simpa [hs.listeners_eq] using hnil
            refine ⟨⟨hinv, hs.promoted, hs.listeners_eq⟩, ?_⟩
            rw [(Untouched.act s rfl).delivered_eq, hzero]
            simp [pipedOf]
          · have hpipes : ∀ listener ∈ s.dataListeners, listener = .pipe := by
              rw [hs.listeners_eq]
              exact fun listener hl => List.eq_of_mem_replicate hl
            rw [foldlM_pipe answer chunk' _ hpipes] at hinv ⊢
            refine ⟨⟨hinv, hs.promoted, hs.listeners_eq⟩, ?_⟩
            have hreceived : delivered (s.act (.received chunk')).log = delivered s.log :=
              (Untouched.act s rfl).delivered_eq
            rw [Socket.afterHandlers, delivered_append, hreceived, delivered_replicate,
              hs.listeners_eq, List.length_replicate]
            rfl
      | settle | handshakeTimeout | error | close | bind | refuse | «end» | destroy => cases hchunk

/-- **What is piped in a run.** -/
theorem piping_run {n : ℕ} {es : List Event} (hbind : ∀ e ∈ es, e ≠ .bind)
    (hemits : Along (step opts) Emits s es) (hs : s.Piping opts n) :
    (run (step opts) s es).Piping opts n ∧
      delivered (run (step opts) s es).log = delivered s.log ++ (es.map (pipedOf n)).flatten := by
  induction es generalizing s with
  | nil => exact ⟨hs, by simp⟩
  | cons e es ih =>
      obtain ⟨he, hes⟩ := (along_cons e es).mp hemits
      obtain ⟨hstep, hdelivered⟩ := piping_step (hbind e List.mem_cons_self) he hs
      obtain ⟨hrun, hrest⟩ := ih (fun e' he' => hbind e' (List.mem_cons_of_mem e he')) hes hstep
      refine ⟨hrun, ?_⟩
      rw [run_cons, hrest, hdelivered]
      simp

/-- `bind` adds a pipe. -/
theorem piping_bind {n : ℕ} (hs : s.Piping opts n) :
    (s.step opts .bind).Piping opts (n + 1) ∧
      delivered (s.step opts .bind).log = delivered s.log := by
  have hinv := inv_step (e := .bind) hs.inv
  rw [step, if_neg hs.promoted] at hinv ⊢
  refine ⟨⟨hinv, hs.promoted, ?_⟩, (Untouched.bind s).delivered_eq⟩
  simp [bind, write, act, hs.listeners_eq, List.replicate_succ']

/-- The chunk is taken for a request that is accepted. -/
def Accepts (opts : Options) (s : Socket) (r : Bytes) (answer : AuthInfo → Answer) : Prop :=
  s.promoted = [] ∧ (s.step opts (.data r answer)).promoted ≠ []

theorem pipedOf_zero (es : List Event) : (es.map (pipedOf 0)).flatten = [] := by
  simp [pipedOf]

theorem pipedOf_one (es : List Event) : (es.map (pipedOf 1)).flatten = sent es := by
  induction es with
  | nil => rfl
  | cons e es ih =>
      rw [List.map_cons, List.flatten_cons, ih]
      cases hchunk : e.chunk <;> simp [pipedOf, sent, hchunk]

/-- **The target is given the bytes of the chunks after `bind`**, and no others. -/
theorem delivered_eq_after (opts : Options) (endpoints : SocketInfo)
    (history before after : List Event) (r : Bytes) (answer : AuthInfo → Answer)
    (haccepts : Accepts opts (run (step opts) (accepted endpoints) history) r answer)
    (hbind : ∀ e ∈ history ++ before ++ after, e ≠ .bind)
    (hemits : Along (step opts) Emits (accepted endpoints)
      (history ++ .data r answer :: (before ++ .bind :: after))) :
    delivered (run (step opts) (accepted endpoints)
      (history ++ .data r answer :: (before ++ .bind :: after))).log = sent after := by
  have hunbound : (run (step opts) (accepted endpoints) history).Unbound := by
    have halong : Along (step opts) (fun _ e => e ≠ .bind) (accepted endpoints) history :=
      Along.of_forall fun e he _ => hbind e (by simp [he])
    have hboth := halong.invariant (P := fun s => s.Inv opts ∧ s.Unbound)
      (fun s e he hs => ⟨inv_step hs.1, unbound_step he hs.1 hs.2⟩)
      ⟨inv_accepted opts endpoints, unbound_accepted endpoints⟩
    exact hboth.2
  have hinv := inv_run opts endpoints history
  rw [run_append, run_cons]
  obtain ⟨-, hemits⟩ := (along_append history _).mp hemits
  obtain ⟨-, hemits⟩ := (along_cons _ _).mp hemits
  generalize run (step opts) (accepted endpoints) history = s at haccepts hunbound hinv hemits
  -- the request makes the connection
  have hrequest := unbound_step (e := .data r answer) (by simp) hinv hunbound
  have hpiping : (s.step opts (.data r answer)).Piping opts 0 :=
    ⟨inv_step hinv, haccepts.2, hrequest.deaf haccepts.2⟩
  rw [run_append, run_cons]
  obtain ⟨hwait, hemits⟩ := (along_append before _).mp hemits
  obtain ⟨-, hemits⟩ := (along_cons _ _).mp hemits
  -- until `bind` its chunks are lost
  obtain ⟨hwaiting, hlost⟩ := piping_run (fun e he => hbind e (by simp [he])) hwait hpiping
  obtain ⟨hbound, hkept⟩ := piping_bind hwaiting
  -- and after it they are piped
  obtain ⟨-, hpiped⟩ := piping_run (fun e he => hbind e (by simp [he])) hemits hbound
  rw [hpiped, hkept, hlost, hrequest.delivered_eq, pipedOf_zero, pipedOf_one]
  rfl

/-- **After its request a client's bytes are delivered in full exactly if it sends nothing
before `bind`**, neither behind the request in its chunk nor in chunks of their own. -/
theorem delivery_iff (opts : Options) (endpoints : SocketInfo) (history before after : List Event)
    (r : Bytes) (answer : AuthInfo → Answer)
    (haccepts : Accepts opts (run (step opts) (accepted endpoints) history) r answer)
    (hbind : ∀ e ∈ history ++ before ++ after, e ≠ .bind)
    (hemits : Along (step opts) Emits (accepted endpoints)
      (history ++ .data r answer :: (before ++ .bind :: after))) :
    delivered (run (step opts) (accepted endpoints)
        (history ++ .data r answer :: (before ++ .bind :: after))).log =
      r.drop (requestLength r) ++ sent before ++ sent after ↔
    r.drop (requestLength r) = [] ∧ sent before = [] := by
  rw [delivered_eq_after opts endpoints history before after r answer haccepts hbind hemits]
  constructor
  · intro h
    have hlength := congrArg List.length h
    simp only [List.length_append] at hlength
    exact ⟨List.length_eq_zero_iff.mp (by omega), List.length_eq_zero_iff.mp (by omega)⟩
  · rintro ⟨hrest, hbefore⟩
    rw [hrest, hbefore]
    rfl

/-- CONNECT 127.0.0.1:80. -/
def loopbackConnect : Bytes := [0x05, 0x01, 0x00, 0x01, 127, 0, 0, 1, 0x00, 0x50]

theorem delivery_after_bind :
    delivered (run (step ⟨false⟩) (accepted ⟨none, none, none, none⟩)
      ([.data [0x05, 0x01, 0x00] fun _ => .returns] ++ .data loopbackConnect (fun _ => .returns) ::
        ([] ++ .bind :: [.data [0x68, 0x69] fun _ => .returns]))).log =
      loopbackConnect.drop (requestLength loopbackConnect) ++ sent [] ++
        sent [.data [0x68, 0x69] fun _ => .returns] :=
  (delivery_iff ⟨false⟩ ⟨none, none, none, none⟩ [.data [0x05, 0x01, 0x00] fun _ => .returns] []
    [.data [0x68, 0x69] fun _ => .returns] loopbackConnect (fun _ => .returns)
    ⟨by decide, by decide⟩ (by simp) (by
      simp only [List.cons_append, List.nil_append, along_cons, along_nil, Emits, and_true]
      decide)).mpr
    ⟨by decide, by decide⟩

/-- Bytes behind the request are dropped with its chunk. -/
theorem delivery_behind_request :
    Accepts ⟨false⟩ (run (step ⟨false⟩) (accepted ⟨none, none, none, none⟩)
      [.data [0x05, 0x01, 0x00] fun _ => .returns]) (loopbackConnect ++ [0x68, 0x69])
      (fun _ => .returns) ∧
    Along (step ⟨false⟩) Emits (accepted ⟨none, none, none, none⟩)
      [.data [0x05, 0x01, 0x00] fun _ => .returns,
        .data (loopbackConnect ++ [0x68, 0x69]) fun _ => .returns, .bind] ∧
    (loopbackConnect ++ [0x68, 0x69]).drop (requestLength (loopbackConnect ++ [0x68, 0x69])) =
      [0x68, 0x69] ∧
    delivered (run (step ⟨false⟩) (accepted ⟨none, none, none, none⟩)
      [.data [0x05, 0x01, 0x00] fun _ => .returns,
        .data (loopbackConnect ++ [0x68, 0x69]) fun _ => .returns, .bind]).log = [] := by
  refine ⟨⟨by decide, by decide⟩, ?_, by decide, by decide⟩
  simp only [along_cons, along_nil, Emits, and_true]
  decide

end Socket

end Proxinator.Socks5
