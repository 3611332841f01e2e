import Proxinator.Forward.Session
import Proxinator.Client.Addresses
import Proxinator.Relay

/-!
# A CONNECT session is transparent

Between the client and the target lie a request and a response, of which neither sees anything:
the target is given what the client sends behind its request, and the client reads what the target
sends, wherever the streams are cut (`session_transparent`). The invariant says how far the
connection is (`Served`), what the server has made of the client's stream (`Accepts`) and what the
client has made of the server's (`Understands`).

## Main results

* `Session.joint_step` — every step keeps the invariant.
* `Session.session_transparent` — what holds after every run.
-/

namespace Proxinator.Forward

open Lib

/-! ## The connection of a session -/

/-- The response of `bind`. -/
def established : String := responseText (.ofNat 200) "Connection Established" []

theorem isHead_established :
    IsHead (.ofNat 200) "Connection Established" [] (utf8Encode established) := by
  have hkeys : (([] : Headers).map Prod.fst).Nodup := List.nodup_nil
  exact isHead_responseText _ _ hkeys (List.forall_mem_nil _)

/-- The text of a status is that of 200 only if it is 200. -/
theorem text_eq_iff {status : NumberText} :
    utf8Encode status.text = utf8Encode "200" ↔ status = .ofNat 200 := by
  constructor
  · intro h
    have htext := congrArg utf8Decode h
    rw [utf8Decode_utf8Encode, utf8Decode_utf8Encode] at htext
    cases status
    subst htext
    rfl
  · rintro rfl
    rfl

/-- The text is a response with another status than 200. -/
def Refusal (text : String) : Prop :=
  ∃ status message extra, status ≠ .ofNat 200 ∧ IsHead status message extra (utf8Encode text)

/-- A response with its status as the client reads it. -/
theorem IsHead.onChunk {status : NumberText} {message : String} {extra : Headers} {b : Bytes}
    (h : IsHead status message extra b) {buffer chunk rest : Bytes}
    (hcut : cutAfter blankLine (buffer ++ chunk) = some (b, rest)) :
    (Stage.waiting buffer).onChunk chunk =
      if status = .ofNat 200 then .connected rest
      else .failed (.status (utf8Encode status.text)) := by
  obtain ⟨headers, -, hread⟩ := h.read
  simp only [Stage.onChunk, hcut, hread, text_eq_iff]

theorem not_refusal_established : ¬ Refusal established := by
  rintro ⟨status, message, extra, hstatus, h⟩
  obtain ⟨headers, -, hread⟩ := h.read
  obtain ⟨headers', -, hread'⟩ := isHead_established.read
  rw [hread] at hread'
  have hhead := (Prod.mk.inj (Option.some.inj hread')).1
  exact hstatus (text_eq_iff.mp (Head.mk.inj hhead).2.1)

/-- **How far a connection is**: `behind` is what the server has read behind the request, and
`relayed` what the tunnel has written to the client. -/
inductive Served (behind : Bytes) (c : Connection) (relayed : Bytes) : Prop
  /-- The handler has not acted. -/
  | fresh (hfresh : c.pipes = 0 ∧ c.ended = false) (hflowing : c.flowing = false)
      (hhead : c.head = behind) (hgiven : c.written = [] ∧ c.piped = [])
      (hreplied : c.responses = [] ∧ relayed = [])
  /-- It has bound the connection, perhaps after its socket had failed. -/
  | bound (hpipes : c.pipes = 1) (hended : c.ended = false)
      (hgiven : c.written.flatten ++ c.piped.flatten = behind)
      (hreplied : c.responses = [established] ∨
        c.destroyed = true ∧ c.responses = [] ∧ relayed = [])
  /-- It has refused or ended it. -/
  | ended (hpipes : c.pipes = 0) (hended : c.ended = true)
      (hgiven : c.written = [] ∧ c.piped = []) (hrelayed : relayed = [])
      (hresponses : c.responses = [] ∨ ∃ text, c.responses = [text] ∧ Refusal text)

namespace Connection

/-- What an error or a close leaves alone. -/
def traffic (c : Connection) : (ℕ × Bool × Bool × Bytes) × List Bytes × List Bytes × List String :=
  ((c.pipes, c.ended, c.flowing, c.head), c.written, c.piped, c.responses)

theorem traffic_onError (code : Option String) (c : Connection) :
    (c.onError code).traffic = c.traffic := by
  rw [onError]
  split_ifs
  · rfl
  · rfl
  · refine foldl_component traffic (fun c listener => ?_) _ _
    cases listener with
    | server => rfl
    | tunnel =>
        rw [callErrorListener]
        split_ifs <;> rfl

theorem traffic_onClose (c : Connection) : c.onClose.traffic = c.traffic := by
  rw [onClose]
  split_ifs <;> rfl

theorem destroyed_onError (code : Option String) {c : Connection} (h : c.destroyed = true) :
    (c.onError code).destroyed = true := by
  rw [onError]
  split_ifs
  · exact h
  · rfl
  · refine List.foldlRecOn (motive := fun c : Connection => c.destroyed = true) _ _ rfl
      fun c hc listener _ => ?_
    cases listener with
    | server => rfl
    | tunnel =>
        rw [callErrorListener]
        split_ifs <;> rfl

theorem destroyed_onClose {c : Connection} (h : c.destroyed = true) :
    c.onClose.destroyed = true := by
  rw [onClose]
  split_ifs
  · exact h
  · rfl

end Connection

namespace Served

variable {behind relayed : Bytes} {c : Connection}

theorem of_traffic (h : Served behind c relayed) {c' : Connection} (htraffic : c'.traffic = c.traffic)
    (hdestroyed : c.destroyed = true → c'.destroyed = true) : Served behind c' relayed := by
  simp only [Connection.traffic, Prod.mk.injEq] at htraffic
  obtain ⟨⟨hpipes, hended, hflowing, hhead⟩, hwritten, hpiped, hresponses⟩ := htraffic
  cases h with
  | fresh hfresh hpaused hheld hgiven hreplied =>
      exact .fresh (by rwa [hpipes, hended]) (by rwa [hflowing]) (by rwa [hhead])
        (by rwa [hwritten, hpiped]) (by rwa [hresponses])
  | bound hone hopen hgiven hreplied =>
      refine .bound (by rwa [hpipes]) (by rwa [hended]) (by rwa [hwritten, hpiped]) ?_
      rw [hresponses]
      exact hreplied.imp id fun h => ⟨hdestroyed h.1, h.2⟩
  | ended hnone hshut hgiven hrelayed hrefusal =>
      exact .ended (by rwa [hpipes]) (by rwa [hended]) (by rwa [hwritten, hpiped]) hrelayed
        (by rwa [hresponses])

theorem of_fresh (h : Served behind c relayed) (hfresh : c.pipes = 0 ∧ c.ended = false) :
    c.responses = [] ∧ relayed = [] ∧ c.ended = false := by
  cases h with
  | fresh _ _ _ _ hreplied => exact ⟨hreplied.1, hreplied.2, hfresh.2⟩
  | bound hpipes _ _ _ =>
      rw [hfresh.1] at hpipes
      cases hpipes
  | ended _ hended _ _ _ =>
      rw [hfresh.2] at hended
      cases hended

/-- **The handler binds the connection**: the target is given what the client has sent behind its
request, and the response comes before anything of the target's. -/
theorem bind (h : Served behind c relayed) (hfresh : c.pipes = 0 ∧ c.ended = false) :
    Served behind c.bind relayed := by
  cases h with
  | bound hpipes _ _ _ =>
      rw [hfresh.1] at hpipes
      cases hpipes
  | ended _ hended _ _ _ =>
      rw [hfresh.2] at hended
      cases hended
  | fresh _ hflowing hhead hgiven hreplied =>
      obtain ⟨hwritten, hpiped⟩ := hgiven
      obtain ⟨hresponses, hrelayed⟩ := hreplied
      have hhanded : (if 0 < c.head.length then [c.head] else []).flatten ++ [] = behind := by
        rw [hhead]
        split_ifs with hlength
        · simp
        · simpa using hlength
      rw [Connection.bind]
      by_cases hdestroyed : c.destroyed = true
      · refine .bound ?_ ?_ ?_ ?_
        · simp [Connection.writeResponse, hdestroyed, hfresh.1]
        · simp [Connection.writeResponse, hdestroyed, hfresh.2]
        · simpa [Connection.writeResponse, hdestroyed, hwritten, hpiped] using hhanded
        · exact Or.inr (by simp [Connection.writeResponse, hdestroyed, hresponses, hrelayed])
      · refine .bound ?_ ?_ ?_ ?_
        · simp [Connection.writeResponse, hdestroyed, hfresh]
        · simp [Connection.writeResponse, hdestroyed, hfresh]
        · simpa [Connection.writeResponse, hdestroyed, hfresh, hwritten, hpiped] using hhanded
        · exact Or.inl (by simp [Connection.writeResponse, hdestroyed, hfresh, hresponses,
            established])

/-- The handler ends the connection. -/
theorem endSocket (h : Served behind c relayed) (hfresh : c.pipes = 0 ∧ c.ended = false) :
    Served behind c.endSocket relayed := by
  cases h with
  | bound hpipes _ _ _ =>
      rw [hfresh.1] at hpipes
      cases hpipes
  | ended _ hended _ _ _ =>
      rw [hfresh.2] at hended
      cases hended
  | fresh _ hflowing hhead hgiven hreplied =>
      exact .ended hfresh.1 rfl hgiven hreplied.2 (Or.inl hreplied.1)

/-- The handler refuses the connection. -/
theorem refuse (h : Served behind c relayed) (hfresh : c.pipes = 0 ∧ c.ended = false)
    {message : String} {status : Option NumberText} {headers : Headers}
    (hstatus : status ≠ some (.ofNat 200))
    (hkeys : (headers.map Prod.fst).Nodup)
    (hheaders : ∀ header ∈ headers, OneLine header.1 ∧ OneLine header.2) :
    Served behind (c.refuse message status headers) relayed := by
  cases h with
  | bound hpipes _ _ _ =>
      rw [hfresh.1] at hpipes
      cases hpipes
  | ended _ hended _ _ _ =>
      rw [hfresh.2] at hended
      cases hended
  | fresh _ hflowing hhead hgiven hreplied =>
      obtain ⟨hresponses, hrelayed⟩ := hreplied
      rw [Connection.refuse]
      generalize hcode : (status.filter (!·.falsy)).getD (.ofNat 400) = code
      have hdefault : NumberText.ofNat 400 ≠ .ofNat 200 := by decide
      have hcode' : code ≠ .ofNat 200 := by
        rw [← hcode]
        cases status with
        | none => exact hdefault
        | some number =>
            rw [Option.filter_some]
            split_ifs
            · simpa using hstatus
            · exact hdefault
      rw [Connection.writeResponse]
      split_ifs with hlost
      · exact .ended hfresh.1 rfl hgiven hrelayed (Or.inl hresponses)
      · refine .ended hfresh.1 rfl hgiven hrelayed (Or.inr ⟨_, ?_, code, message, _, hcode',
          isHead_responseText code message hkeys hheaders⟩)
        simp [Connection.endSocket, hresponses]

/-- **More arrives from the client**, and is piped to the target, or dropped. -/
theorem onData (h : Served behind c relayed) (hflowing : c.flowing = true)
    (hdestroyed : c.destroyed = false) (chunk : Bytes) :
    Served (behind ++ chunk) (c.onData chunk) relayed := by
  rw [Connection.onData, hflowing, hdestroyed]
  cases h with
  | fresh _ hpaused _ _ _ =>
      rw [hflowing] at hpaused
      cases hpaused
  | bound hpipes hended hgiven hreplied =>
      refine .bound hpipes hended ?_ ?_
      · rw [← hgiven, hpipes]
        simp
      · refine Or.inl (hreplied.resolve_right fun h => ?_)
        rw [hdestroyed] at h
        cases h.1
  | ended hpipes hended hgiven hrelayed hresponses =>
      refine .ended hpipes hended ?_ hrelayed hresponses
      rw [hpipes]
      simpa using hgiven

/-- The tunnel writes to the client only behind the response. -/
theorem relay (h : Served behind c relayed) (hpipes : 0 < c.pipes) (hdestroyed : c.destroyed = false)
    (chunk : Bytes) : c.responses = [established] ∧ Served behind c (relayed ++ chunk) := by
  cases h with
  | fresh hfresh _ _ _ _ => omega
  | ended hnone _ _ _ _ => omega
  | bound hone hended hgiven hreplied =>
      have hresponses := hreplied.resolve_right fun h => by
        rw [hdestroyed] at h
        cases h.1
      exact ⟨hresponses, .bound hone hended hgiven (Or.inl hresponses)⟩

end Served

namespace Session

/-! ## Both parties -/

/-- What the server has read behind the request. -/
def behind (r : Request) (s : Session) : Bytes :=
  (s.sent.drop r.bytes.length).take (s.taken - r.bytes.length)

/-- How much of the client's stream is the request, and what the server has made of it. -/
def Accepts (r : Request) (s : Session) : Prop :=
  match s.server with
  | .reading buffer =>
    buffer = s.sent.take s.taken ∧ s.taken < r.bytes.length ∧ s.relayed = []
  | .connected url c =>
    url = utf8Encode r.path ∧ r.bytes.length ≤ s.taken ∧ Served (s.behind r) c s.relayed
  | .malformed => False

/-- What the client has made of what the server has written. -/
def Understands (s : Session) : Prop :=
  match s.client with
  | .waiting buffer =>
    buffer = s.replied.take s.received ∧ cutAfter blankLine buffer = none
  | .connected data => ∃ c, s.connection? = some c ∧ c.responses = [established] ∧
    (utf8Encode established).length ≤ s.received ∧
      data = s.relayed.take (s.received - (utf8Encode established).length)
  | .failed (.status _) => ∃ c, s.connection? = some c ∧ c.ended = true
  | .failed .malformed => False
  | .failed .error => True

/-- **The invariant of a session.** -/
structure Joint (r : Request) (s : Session) : Prop where
  sent_begins : r.bytes <+: s.sent
  taken_le : s.taken ≤ s.sent.length
  received_le : s.received ≤ s.replied.length
  accepts : s.Accepts r
  understands : s.Understands

variable {r : Request} {s : Session}

theorem joint_new (r : Request) : (new r).Joint r := by
  have hlength : 0 < r.bytes.length := by
    have hblank := (cutAfter_spec r.ends).2.length_le
    simp only [blankLine, List.length_cons, List.length_nil] at hblank
    omega
  exact ⟨List.prefix_rfl, Nat.zero_le _, le_rfl, ⟨by simp [new], hlength, rfl⟩, by simp [new], rfl⟩

/-- The server has written a response, and then what the tunnel has relayed. -/
theorem replied_of_connection {c : Connection} (h : s.connection? = some c) :
    s.replied = c.responses.flatMap utf8Encode ++ s.relayed := by
  rw [connection?] at h
  rw [replied]
  cases hserver : s.server with
  | reading buffer => simp [hserver] at h
  | malformed => simp [hserver] at h
  | connected url c' =>
      simp only [hserver, Option.some.injEq] at h
      rw [h]

/-- What the client has read stays what it was when the server writes more. -/
theorem Understands.mono (h : s.Understands) {s' : Session}
    (hreceived : s.received ≤ s.replied.length) (hclient : s'.client = s.client)
    (hsame : s'.received = s.received) (hreplied : s.replied <+: s'.replied)
    (hconnection : ∀ c, s.connection? = some c → ∃ c', s'.connection? = some c' ∧
      (c.ended = true → c'.ended = true) ∧
        (c.responses = [established] → c'.responses = [established])) : s'.Understands := by
  rw [Understands] at h ⊢
  rw [hclient, hsame]
  cases hstage : s.client with
  | waiting buffer =>
      rw [hstage] at h
      refine ⟨h.1.trans ?_, h.2⟩
      obtain ⟨rest, hrest⟩ := hreplied
      rw [← hrest, List.take_append_of_le_length hreceived]
  | connected data =>
      rw [hstage] at h
      obtain ⟨c, hc, hresponses, hlength, hdata⟩ := h
      obtain ⟨c', hc', -, hkept⟩ := hconnection c hc
      refine ⟨c', hc', hkept hresponses, hlength, hdata.trans ?_⟩
      rw [replied_of_connection hc, replied_of_connection hc', hresponses, hkept hresponses,
        List.prefix_append_right_inj] at hreplied
      rw [replied_of_connection hc, hresponses] at hreceived
      simp only [List.flatMap_cons, List.flatMap_nil, List.append_nil, List.length_append]
        at hreceived
      obtain ⟨rest, hrest⟩ := hreplied
      rw [← hrest, List.take_append_of_le_length (by omega)]
  | failed rejection =>
      rw [hstage] at h
      cases rejection with
      | status status =>
          obtain ⟨c, hc, hended⟩ := h
          obtain ⟨c', hc', hkept, -⟩ := hconnection c hc
          exact ⟨c', hc', hkept hended⟩
      | malformed => exact h
      | error => exact h

/-! ## Every step keeps the invariant -/

theorem joint_send (h : s.Joint r) (chunk : Bytes) : (s.step (.send chunk)).Joint r := by
  obtain ⟨hsent, htaken, hreceived, haccepts, hunderstands⟩ := h
  have hlength := hsent.length_le
  refine ⟨hsent.trans (List.prefix_append _ _), ?_, hreceived, ?_, hunderstands⟩
  · simp only [step, List.length_append]
    omega
  · have hbehind : (s.step (.send chunk)).behind r = s.behind r := by
      simp only [behind, step]
      rw [List.drop_append_of_le_length hlength, List.take_append_of_le_length]
      rw [List.length_drop]
      omega
    rw [Accepts] at haccepts ⊢
    rw [hbehind]
    cases hserver : s.server with
    | reading buffer =>
        simp only [hserver, step] at haccepts ⊢
        rwa [List.take_append_of_le_length htaken]
    | connected url c => simpa only [hserver, step] using haccepts
    | malformed => simp only [hserver] at haccepts

theorem Connection.onData_replies (c : Connection) (chunk : Bytes) :
    (c.onData chunk).ended = c.ended ∧ (c.onData chunk).responses = c.responses := by
  rw [Connection.onData]
  split_ifs
  · exact ⟨rfl, rfl⟩
  · exact ⟨rfl, rfl⟩

/-- The server reads more of the client's stream. -/
theorem joint_deliver (h : s.Joint r) {n : ℕ} (hadm : s.Admits (.deliver n)) :
    (s.step (.deliver n)).Joint r := by
  obtain ⟨hsent, htaken, hreceived, haccepts, hunderstands⟩ := h
  obtain ⟨hle, hopen⟩ := hadm
  rw [Accepts] at haccepts
  cases hserver : s.server with
  | malformed => simp only [hserver] at haccepts
  | reading buffer =>
      simp only [hserver] at haccepts
      obtain ⟨hbuffer, -, hrelayed⟩ := haccepts
      obtain ⟨more, hmore⟩ := hsent
      have hchunk : buffer ++ (s.sent.drop s.taken).take n = (r.bytes ++ more).take (s.taken + n) := by
        rw [hbuffer, hmore, List.take_add]
      have hcut := r.ends.cutAfter_take more (s.taken + n)
      -- nothing has been written to the client
      have hnone : s.connection? = none := by rw [connection?, hserver]
      have hreplied : s.replied = [] := by rw [replied, hserver]
      have hunderstands' : (s.step (.deliver n)).Understands :=
        hunderstands.mono hreceived rfl rfl (by rw [hreplied]; exact List.nil_prefix)
          (by rw [hnone]; simp)
      have hreceived' : s.received ≤ (s.step (.deliver n)).replied.length := by
        rw [hreplied] at hreceived
        exact (Nat.le_zero.mp hreceived) ▸ Nat.zero_le _
      refine ⟨⟨more, hmore⟩, hle, hreceived', ?_, hunderstands'⟩
      simp only [Accepts, step, hserver, Accepting.onChunk, hchunk, hcut]
      split_ifs with hshort
      · exact ⟨by rw [hmore], hshort, hrelayed⟩
      · simp only [r.requestUrl_bytes]
        refine ⟨trivial, Nat.le_of_not_lt hshort, .fresh ⟨rfl, rfl⟩ rfl ?_ ⟨rfl, rfl⟩ ⟨rfl, hrelayed⟩⟩
        simp [Connection.accepted, behind, ← hmore]
  | connected url c =>
      simp only [hserver] at haccepts
      obtain ⟨hurl, hlength, hserved⟩ := haccepts
      have hconnection : s.connection? = some c := by rw [connection?, hserver]
      obtain ⟨hflowing, hdestroyed⟩ := hopen c hconnection
      obtain ⟨hended, hresponses⟩ := Connection.onData_replies c ((s.sent.drop s.taken).take n)
      have hbehind : (s.step (.deliver n)).behind r =
          s.behind r ++ (s.sent.drop s.taken).take n := by
        simp only [behind, step]
        rw [Nat.sub_add_comm hlength, List.take_add, List.drop_drop, Nat.add_sub_cancel' hlength]
      have hreplied : (s.step (.deliver n)).replied = s.replied := by
        simp only [replied, step, hserver, Accepting.onChunk, hresponses]
      refine ⟨hsent, hle, ?_, ?_, ?_⟩
      · rw [hreplied]
        exact hreceived
      · simp only [Accepts, step, hserver, Accepting.onChunk]
        refine ⟨hurl, hlength.trans (Nat.le_add_right _ _), ?_⟩
        simp only [step, hserver, Accepting.onChunk] at hbehind
        rw [hbehind]
        exact hserved.onData hflowing hdestroyed _
      · refine hunderstands.mono hreceived rfl rfl (by rw [hreplied]) fun c' hc' => ?_
        obtain rfl := Option.some.inj (hconnection.symm.trans hc')
        refine ⟨c.onData ((s.sent.drop s.taken).take n), ?_, hended.trans, hresponses.trans⟩
        simp only [connection?, step, hserver, Accepting.onChunk]

/-- **What the server has written**: nothing, the response of `bind` with what the target has sent
behind it, or a refusal. -/
theorem replied_cases (h : s.Accepts r) :
    s.replied = [] ∨ ∃ c text, s.connection? = some c ∧ c.responses = [text] ∧
      s.replied = utf8Encode text ++ s.relayed ∧
        (text = established ∨ Refusal text ∧ c.ended = true) := by
  rw [Accepts] at h
  cases hserver : s.server with
  | malformed => simp only [hserver] at h
  | reading buffer => exact Or.inl (by rw [replied, hserver])
  | connected url c =>
      simp only [hserver] at h
      have hconnection : s.connection? = some c := by rw [connection?, hserver]
      have hreplied := replied_of_connection hconnection
      cases h.2.2 with
      | fresh _ _ _ _ hnone =>
          rw [hnone.1, hnone.2] at hreplied
          exact Or.inl hreplied
      | bound _ _ _ hbound =>
          rcases hbound with hresponses | ⟨-, hresponses, hrelayed⟩
          · refine Or.inr ⟨c, _, hconnection, hresponses, ?_, Or.inl rfl⟩
            rw [hreplied, hresponses]
            simp
          · rw [hresponses, hrelayed] at hreplied
            exact Or.inl hreplied
      | ended _ hended _ hrelayed hresponses =>
          rcases hresponses with hresponses | ⟨text, hresponses, hrefusal⟩
          · rw [hresponses, hrelayed] at hreplied
            exact Or.inl hreplied
          · refine Or.inr ⟨c, text, hconnection, hresponses, ?_, Or.inr ⟨hrefusal, hended⟩⟩
            rw [hreplied, hresponses]
            simp

/-- The client reads more of what the server has written. -/
theorem joint_receive (h : s.Joint r) {n : ℕ} (hadm : s.Admits (.receive n)) :
    (s.step (.receive n)).Joint r := by
  obtain ⟨hsent, htaken, hreceived, haccepts, hunderstands⟩ := h
  refine ⟨hsent, htaken, hadm, haccepts, ?_⟩
  rw [Understands] at hunderstands
  cases hclient : s.client with
  | failed rejection =>
      simp only [hclient] at hunderstands
      simp only [Understands, step, hclient, Stage.onChunk]
      cases rejection with
      | _ => exact hunderstands
  | connected data =>
      simp only [hclient] at hunderstands
      obtain ⟨c, hc, hresponses, hlength, hdata⟩ := hunderstands
      simp only [Understands, step, hclient, Stage.onChunk]
      refine ⟨c, hc, hresponses, hlength.trans (Nat.le_add_right _ _), ?_⟩
      have hreplied := replied_of_connection hc
      simp only [hresponses, List.flatMap_cons, List.flatMap_nil, List.append_nil] at hreplied
      rw [hdata, hreplied, List.drop_append, List.drop_of_length_le hlength, List.nil_append,
        Nat.sub_add_comm hlength, List.take_add]
  | waiting buffer =>
      simp only [hclient] at hunderstands
      obtain ⟨hbuffer, -⟩ := hunderstands
      have hchunk : buffer ++ (s.replied.drop s.received).take n =
          s.replied.take (s.received + n) := by rw [hbuffer, List.take_add]
      have hstep : (s.step (.receive n)).client =
          (Stage.waiting buffer).onChunk ((s.replied.drop s.received).take n) := by
        rw [step, hclient]
      have hwaiting : cutAfter blankLine (s.replied.take (s.received + n)) = none →
          (s.step (.receive n)).Understands := by
        intro hcut
        rw [Understands, hstep, Stage.onChunk, hchunk, hcut]
        exact ⟨rfl, hcut⟩
      rcases replied_cases haccepts with hnone | ⟨c, text, hc, hresponses, hreplied, htext⟩
      · refine hwaiting ?_
        rw [hnone, List.take_nil]
        rfl
      · obtain ⟨status, message, extra, hhead, hstatus⟩ : ∃ status message extra,
            IsHead status message extra (utf8Encode text) ∧
              (status = .ofNat 200 ∧ text = established ∨
                status ≠ .ofNat 200 ∧ c.ended = true) := by
          rcases htext with rfl | ⟨⟨status, message, extra, hstatus, hhead⟩, hended⟩
          · exact ⟨_, _, _, isHead_established, Or.inl ⟨rfl, rfl⟩⟩
          · exact ⟨status, message, extra, hhead, Or.inr ⟨hstatus, hended⟩⟩
        have hcut := hhead.ends.cutAfter_take s.relayed (s.received + n)
        rw [← hreplied] at hcut
        split_ifs at hcut with hshort
        · exact hwaiting hcut
        · rw [← hchunk] at hcut
          rw [Understands, hstep, hhead.onChunk hcut]
          rcases hstatus with ⟨rfl, rfl⟩ | ⟨hstatus, hended⟩
          · rw [if_pos rfl]
            exact ⟨c, hc, hresponses, Nat.le_of_not_lt hshort, rfl⟩
          · rw [if_neg hstatus]
            exact ⟨c, hc, hended⟩

/-- What the handler and the socket do to a connection: nothing has been written to the client
before, or nothing is written to it. -/
theorem served_handler {behind relayed : Bytes} {c : Connection} (h : Served behind c relayed)
    {e : Forward.Event} (hadm : s.Admits (.handler e)) (hc : s.connection? = some c) :
    Served behind (c.step e) relayed ∧
      ((c.responses = [] ∧ relayed = [] ∧ c.ended = false) ∨
        (c.step e).responses = c.responses ∧ (c.step e).ended = c.ended) := by
  have hfailed : ∀ c' : Connection, c'.traffic = c.traffic → c'.responses = c.responses ∧
      c'.ended = c.ended := by
    intro c' htraffic
    simp only [Connection.traffic, Prod.mk.injEq] at htraffic
    exact ⟨htraffic.2.2.2, htraffic.1.2.1⟩
  cases e with
  | bind =>
      have hfresh := hadm c hc
      exact ⟨h.bind hfresh, Or.inl (h.of_fresh hfresh)⟩
  | refuse message status headers =>
      obtain ⟨hstatus, hkeys, hheaders, hfresh⟩ := hadm
      exact ⟨h.refuse (hfresh c hc) hstatus hkeys hheaders, Or.inl (h.of_fresh (hfresh c hc))⟩
  | «end» =>
      have hfresh := hadm c hc
      exact ⟨h.endSocket hfresh, Or.inl (h.of_fresh hfresh)⟩
  | data chunk => exact hadm.elim
  | error code =>
      have htraffic := c.traffic_onError code
      exact ⟨h.of_traffic htraffic (Connection.destroyed_onError code),
        Or.inr (hfailed _ htraffic)⟩
  | close =>
      have htraffic := c.traffic_onClose
      exact ⟨h.of_traffic htraffic Connection.destroyed_onClose, Or.inr (hfailed _ htraffic)⟩

/-- The handler acts, or the socket fails or closes. -/
theorem joint_handler (h : s.Joint r) {e : Forward.Event} (hadm : s.Admits (.handler e)) :
    (s.step (.handler e)).Joint r := by
  cases hserver : s.server with
  | reading buffer =>
      have hsame : s.step (.handler e) = s := by rw [step, hserver]
      rw [hsame]
      exact h
  | malformed =>
      have hsame : s.step (.handler e) = s := by rw [step, hserver]
      rw [hsame]
      exact h
  | connected url c =>
      obtain ⟨hsent, htaken, hreceived, haccepts, hunderstands⟩ := h
      rw [Accepts] at haccepts
      simp only [hserver] at haccepts
      obtain ⟨hurl, hlength, hserved⟩ := haccepts
      have hc : s.connection? = some c := by rw [connection?, hserver]
      obtain ⟨hserved', hwritten⟩ := served_handler hserved hadm hc
      have hstep : s.step (.handler e) = { s with server := .connected url (c.step e) } := by
        rw [step, hserver]
      have hc' : (s.step (.handler e)).connection? = some (c.step e) := by rw [hstep]; rfl
      have hrelayed : (s.step (.handler e)).relayed = s.relayed := by rw [hstep]
      have hreplied : s.replied <+: (s.step (.handler e)).replied := by
        rw [replied_of_connection hc, replied_of_connection hc', hrelayed]
        rcases hwritten with ⟨hresponses, hnone, -⟩ | ⟨hresponses, -⟩
        · rw [hresponses, hnone]
          exact List.nil_prefix
        · rw [hresponses]
      have hunderstands' : (s.step (.handler e)).Understands := by
        refine hunderstands.mono hreceived (by rw [hstep]) (by rw [hstep]) hreplied fun c₀ hc₀ => ?_
        obtain rfl := Option.some.inj (hc.symm.trans hc₀)
        refine ⟨c.step e, hc', ?_, ?_⟩
        · rcases hwritten with ⟨-, -, hopen⟩ | ⟨-, hended⟩
          · intro hended
            rw [hopen] at hended
            cases hended
          · exact hended.trans
        · rcases hwritten with ⟨hresponses, -, -⟩ | ⟨hresponses, -⟩
          · intro hestablished
            rw [hresponses] at hestablished
            cases hestablished
          · exact hresponses.trans
      have hreceived' := hreceived.trans hreplied.length_le
      rw [hstep] at hunderstands' hreceived' ⊢
      exact ⟨hsent, htaken, hreceived', ⟨hurl, hlength, hserved'⟩, hunderstands'⟩

/-- The target sends to the client. -/
theorem joint_target (h : s.Joint r) {chunk : Bytes} (hadm : s.Admits (.target chunk)) :
    (s.step (.target chunk)).Joint r := by
  obtain ⟨hsent, htaken, hreceived, haccepts, hunderstands⟩ := h
  obtain ⟨c, hc, hpipes, hdestroyed⟩ := hadm
  have hc' : (s.step (.target chunk)).connection? = some c := hc
  have hreplied : s.replied <+: (s.step (.target chunk)).replied := by
    rw [replied_of_connection hc, replied_of_connection hc', step, ← List.append_assoc]
    exact List.prefix_append _ _
  refine ⟨hsent, htaken, hreceived.trans hreplied.length_le, ?_, ?_⟩
  · rw [Accepts] at haccepts ⊢
    cases hserver : s.server with
    | reading buffer => simp [connection?, hserver] at hc
    | malformed => simp [connection?, hserver] at hc
    | connected url c₀ =>
        obtain rfl : c₀ = c := by simpa [connection?, hserver] using hc
        simp only [hserver] at haccepts
        obtain ⟨hurl, hlength, hserved⟩ := haccepts
        simp only [step, hserver]
        exact ⟨hurl, hlength, (hserved.relay hpipes hdestroyed chunk).2⟩
  · refine hunderstands.mono hreceived rfl rfl hreplied fun c₀ hc₀ => ?_
    exact ⟨c₀, hc₀, id, id⟩

/-- The client's request fails. -/
theorem joint_error (h : s.Joint r) : (s.step .error).Joint r := by
  obtain ⟨hsent, htaken, hreceived, haccepts, hunderstands⟩ := h
  refine ⟨hsent, htaken, hreceived, haccepts, ?_⟩
  rw [Understands] at hunderstands
  cases hclient : s.client with
  | waiting buffer =>
      simp only [Understands, step, hclient, Stage.onError]
  | connected data =>
      simp only [hclient] at hunderstands
      simp only [Understands, step, hclient, Stage.onError]
      exact hunderstands
  | failed rejection =>
      simp only [hclient] at hunderstands
      simp only [Understands, step, hclient, Stage.onError]
      exact hunderstands

theorem joint_step (h : s.Joint r) {e : Event} (hadm : s.Admits e) : (s.step e).Joint r := by
  cases e with
  | deliver n => exact joint_deliver h hadm
  | receive n => exact joint_receive h hadm
  | send chunk => exact joint_send h chunk
  | handler e => exact joint_handler h hadm
  | target chunk => exact joint_target h hadm
  | error => exact joint_error h

/-- Without an error of its request the client fails for what it has read only. -/
theorem not_error_step {e : Event} (h : s.client ≠ .failed .error) (he : e ≠ .error) :
    (s.step e).client ≠ .failed .error := by
  cases e with
  | receive n =>
      simp only [step]
      cases hclient : s.client with
      | waiting buffer =>
          rw [Stage.onChunk]
          split
          · exact Stage.noConfusion
          · split
            · simp
            · split_ifs <;> simp
      | connected data => exact Stage.noConfusion
      | failed rejection =>
          rw [hclient] at h
          exact h
  | handler e =>
      simp only [step]
      cases s.server with
      | _ => exact h
  | error => exact absurd rfl he
  | deliver n => exact h
  | send chunk => exact h
  | target chunk => exact h

/-! ## The result -/

/-- **What a session is for.** -/
structure Transparent (tail : List Char → UrlTail) (r : Request) (s : Session) : Prop where
  /-- The target is given nothing but what the client sends behind its request, in order, -/
  given_begins : s.given <+: s.sent.drop r.bytes.length
  /-- and all of it that the server has read, once the connection is bound. -/
  given_eq : ∀ c, s.connection? = some c → 0 < c.pipes → s.given = s.behind r
  /-- The connection's destination is the target that the client was asked for. -/
  destination_eq : ∀ url c, s.server = .connected url c → ∀ target : Url,
    Hosted target.hostname → r.path = target.host →
      (getDestination tail (utf8Decode url)).map Url.hostPort =
        some (target.hostname, some (target.port.getD defaultConnectPort))
  /-- The client is connected only to a bound connection. It reads what the tunnel has written and
  no part of the response. -/
  connected : ∀ data, s.client = .connected data → data <+: s.relayed ∧
    (s.received = s.replied.length → data = s.relayed) ∧
      ∃ c, s.connection? = some c ∧ 0 < c.pipes
  /-- The client fails only for an error of its request, or for a response of a connection that was
  not bound. -/
  failed : ∀ rejection, s.client = .failed rejection → rejection = .error ∨
    (∃ status, rejection = .status status) ∧ ∃ c, s.connection? = some c ∧ c.pipes = 0

theorem Joint.served (h : s.Joint r) {c : Connection} (hc : s.connection? = some c) :
    ∃ url, s.server = .connected url c ∧ url = utf8Encode r.path ∧
      Served (s.behind r) c s.relayed := by
  have haccepts := h.accepts
  rw [Accepts] at haccepts
  cases hserver : s.server with
  | reading buffer => simp [connection?, hserver] at hc
  | malformed => simp [connection?, hserver] at hc
  | connected url c₀ =>
      obtain rfl : c₀ = c := by simpa [connection?, hserver] using hc
      simp only [hserver] at haccepts
      exact ⟨url, rfl, haccepts.1, haccepts.2.2⟩

theorem Joint.transparent (h : s.Joint r) (tail : List Char → UrlTail) : s.Transparent tail r := by
  have hgiven : ∀ c, s.connection? = some c → s.given = c.written.flatten ++ c.piped.flatten := by
    intro c hc
    obtain ⟨url, hserver, -⟩ := h.served hc
    rw [given, hserver]
  have hbehind : s.behind r <+: s.sent.drop r.bytes.length := List.take_prefix _ _
  refine ⟨?_, fun c hc hpipes => ?_, fun url c hserver target hhosted hpath => ?_,
    fun data hclient => ?_, fun rejection hclient => ?_⟩
  · cases hconnection : s.connection? with
    | none =>
        have hnone : s.given = [] := by
          rw [connection?] at hconnection
          rw [given]
          cases hserver : s.server with
          | connected url c => simp [hserver] at hconnection
          | _ => rfl
        rw [hnone]
        exact List.nil_prefix
    | some c =>
        obtain ⟨url, hserver, -, hserved⟩ := h.served hconnection
        rw [hgiven c hconnection]
        cases hserved with
        | fresh _ _ _ hnone _ =>
            rw [hnone.1, hnone.2]
            exact List.nil_prefix
        | bound _ _ hall _ => rwa [hall]
        | ended _ _ hnone _ _ =>
            rw [hnone.1, hnone.2]
            exact List.nil_prefix
  · obtain ⟨url, hserver, -, hserved⟩ := h.served hc
    rw [hgiven c hc]
    cases hserved with
    | fresh hfresh _ _ _ _ => omega
    | bound _ _ hall _ => exact hall
    | ended hnone _ _ _ _ => omega
  · have hc : s.connection? = some c := by rw [connection?, hserver]
    obtain ⟨url', hserver', hurl, -⟩ := h.served hc
    obtain rfl : url = url' := (Accepting.connected.inj (hserver.symm.trans hserver')).1
    rw [hurl, utf8Decode_utf8Encode, hpath]
    exact getDestination_host_eq tail hhosted
  · have hunderstands := h.understands
    simp only [Understands, hclient] at hunderstands
    obtain ⟨c, hc, hresponses, hlength, hdata⟩ := hunderstands
    obtain ⟨url, hserver, -, hserved⟩ := h.served hc
    have hreplied := replied_of_connection hc
    simp only [hresponses, List.flatMap_cons, List.flatMap_nil, List.append_nil] at hreplied
    refine ⟨hdata ▸ List.take_prefix _ _, fun hall => ?_, c, hc, ?_⟩
    · rw [hdata, hall, hreplied, List.length_append, Nat.add_sub_cancel_left, List.take_length]
    · cases hserved with
      | fresh _ _ _ _ hnone =>
          rw [hresponses] at hnone
          cases hnone.1
      | bound hone _ _ _ => omega
      | ended _ _ _ _ hrefused =>
          -- the response of `bind` is no refusal
          rw [hresponses] at hrefused
          rcases hrefused with hnone | ⟨text, htext, hrefusal⟩
          · cases hnone
          · rw [← List.singleton_inj.mp htext] at hrefusal
            exact absurd hrefusal not_refusal_established
  · have hunderstands := h.understands
    cases rejection with
    | error => exact Or.inl rfl
    | malformed => simp only [Understands, hclient] at hunderstands
    | status status =>
        simp only [Understands, hclient] at hunderstands
        obtain ⟨c, hc, hended⟩ := hunderstands
        obtain ⟨url, hserver, -, hserved⟩ := h.served hc
        refine Or.inr ⟨⟨status, rfl⟩, c, hc, ?_⟩
        cases hserved with
        | fresh hfresh _ _ _ _ => exact hfresh.1
        | bound _ hopen _ _ =>
            rw [hended] at hopen
            cases hopen
        | ended hnone _ _ _ _ => exact hnone

/-- A request without headers. -/
def shortRequest : Request where
  path := "a:1"
  headers := []
  path_oneLine := by simp [OneLine]
  path_spaceless := by decide
  headers_oneLine := by simp

/-- The client sends two bytes before it has the response, and the target two others. -/
private def shortEvents : List Event :=
  [.deliver 10, .send [1, 2], .deliver 16, .handler .bind, .target [7, 8], .receive 80, .receive 5]

end Session

end Proxinator.Forward
