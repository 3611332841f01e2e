import Proxinator.Forward.Transparent
import Proxinator.Lib.Channel

/-!
# Sessions inside of sessions

The chain client asks the first proxy for the second one, and through that tunnel the second for
the third. So a session runs over the tunnel of the one before: its client writes into the socket
that the client before has connected, and its server reads what the tunnel gives to the proxy. A
tunnel over a channel is a channel again (`tunnelled`), however many there are (`tunnels`): the
target is given what is written at the near end, behind all requests, and what it sends is read
there without any of the responses (`tunnels_transparent`).

## Main definitions

* `tunnelled` — the tunnel of a session over a channel.
* `tunnels` — the tunnel through a list of proxies.

## Main results

* `tunnels_transparent` — what holds after every run.
-/

namespace Proxinator.Forward

open Lib

namespace Session

variable {r : Request} {s : Session}

/-- What the client has read behind the response. -/
def data (s : Session) : Bytes :=
  match s.client with
  | .connected data => data
  | _ => []

/-! ## What a step adds -/

/-- What the server reads adds to what the target is given, and to nothing else. -/
theorem deliver_adds (h : s.Joint r) (n : ℕ) :
    (s.step (.deliver n)).replied = s.replied ∧ s.given <+: (s.step (.deliver n)).given := by
  have haccepts := h.accepts
  rw [Accepts] at haccepts
  cases hserver : s.server with
  | malformed => simp only [hserver] at haccepts
  | reading buffer =>
      simp only [hserver] at haccepts
      obtain ⟨-, -, hrelayed⟩ := haccepts
      have hgiven : s.given = [] := by rw [given, hserver]
      refine ⟨?_, hgiven ▸ List.nil_prefix⟩
      simp only [replied, step, hserver, Accepting.onChunk]
      cases hcut : cutAfter blankLine (buffer ++ (s.sent.drop s.taken).take n) with
      | none => rfl
      | some cut =>
          obtain ⟨head, rest⟩ := cut
          cases hurl : requestUrl head with
          | none => simp [hurl]
          | some url => simp [hurl, Connection.accepted, hrelayed]
  | connected url c =>
      simp only [replied, given, step, hserver, Accepting.onChunk, Connection.onData]
      split_ifs
      · refine ⟨rfl, ?_⟩
        simp [List.flatten_append, ← List.append_assoc]
      · exact ⟨rfl, List.prefix_rfl⟩

/-- Nothing has been given to the target of a connection that has not been bound. -/
theorem given_of_fresh {behind relayed : Bytes} {c : Connection} (h : Served behind c relayed)
    (hfresh : Fresh c) : c.written.flatten ++ c.piped.flatten = [] := by
  cases h with
  | fresh _ _ _ hgiven _ => simp [hgiven]
  | bound hpipes _ _ _ =>
      rw [hfresh.1] at hpipes
      cases hpipes
  | ended _ _ hgiven _ _ => simp [hgiven]

/-- What the handler or the socket does adds to what the server has written and to what the target
is given. -/
theorem handler_adds (h : s.Joint r) {e : Forward.Event} (hadm : s.Admits (.handler e)) :
    s.replied <+: (s.step (.handler e)).replied ∧ s.given <+: (s.step (.handler e)).given := by
  cases hconnection : s.connection? with
  | none =>
      have hsame : s.step (.handler e) = s := by
        rw [connection?] at hconnection
        rw [step]
        cases hserver : s.server with
        | connected url c => simp [hserver] at hconnection
        | _ => rfl
      rw [hsame]
      exact ⟨List.prefix_rfl, List.prefix_rfl⟩
  | some c =>
      obtain ⟨url, hserver, -, hserved⟩ := h.served hconnection
      simp only [replied, given, step, hserver]
      constructor
      · rcases (served_handler hserved hadm hconnection).2 with ⟨hnone, hnothing, -⟩ | ⟨hsame, -⟩
        · rw [hnone, hnothing]
          exact List.nil_prefix
        · rw [hsame]
      · have hkept : ∀ c' : Connection, c'.traffic = c.traffic →
            c.written.flatten ++ c.piped.flatten <+: c'.written.flatten ++ c'.piped.flatten := by
          intro c' htraffic
          simp only [Connection.traffic, Prod.mk.injEq] at htraffic
          rw [htraffic.2.1, htraffic.2.2.1]
        cases e with
        | bind =>
            rw [given_of_fresh hserved (hadm c hconnection)]
            exact List.nil_prefix
        | refuse message status headers =>
            rw [given_of_fresh hserved (hadm.2.2.2 c hconnection)]
            exact List.nil_prefix
        | «end» =>
            rw [given_of_fresh hserved (hadm c hconnection)]
            exact List.nil_prefix
        | data chunk => exact hadm.elim
        | error code => exact hkept _ (c.traffic_onError code)
        | close => exact hkept _ c.traffic_onClose

theorem handler_keeps (s : Session) (e : Forward.Event) :
    (s.step (.handler e)).sent = s.sent ∧ (s.step (.handler e)).taken = s.taken ∧
      (s.step (.handler e)).received = s.received ∧ (s.step (.handler e)).relayed = s.relayed ∧
        (s.step (.handler e)).client = s.client := by
  rw [step]
  cases s.server with
  | _ => exact ⟨rfl, rfl, rfl, rfl, rfl⟩

/-- The tunnel writes to the client what the target has sent. -/
theorem target_adds {chunk : Bytes} (hadm : s.Admits (.target chunk)) :
    (s.step (.target chunk)).replied = s.replied ++ chunk ∧
      (s.step (.target chunk)).given = s.given := by
  obtain ⟨c, hc, -, -⟩ := hadm
  have hc' : (s.step (.target chunk)).connection? = some c := hc
  rw [replied_of_connection hc, replied_of_connection hc']
  simp [step, given]

/-- The client keeps what it has read. -/
theorem receive_adds (s : Session) (n : ℕ) : s.data <+: (s.step (.receive n)).data := by
  cases hclient : s.client with
  | waiting buffer => simp [data, hclient]
  | failed status => simp [data, hclient]
  | connected data => simp [Session.data, step, hclient, Stage.onChunk]

theorem error_adds (s : Session) : s.data <+: (s.step .error).data := by
  cases hclient : s.client with
  | waiting buffer => simp [data, hclient]
  | failed rejection => simp [data, hclient]
  | connected data => simp [Session.data, step, hclient, Stage.onError]

/-- **Once everything has been read, the client has all that the target has sent**, if its request
has not failed. -/
theorem Joint.data_eq (h : s.Joint r) (hall : s.received = s.replied.length)
    (herror : s.client ≠ .failed .error) {c : Connection} (hc : s.connection? = some c)
    (hpipes : 0 < c.pipes) : s.data = s.relayed := by
  have hunderstands := h.understands
  rw [Understands] at hunderstands
  cases hclient : s.client with
  | waiting buffer =>
      simp only [hclient, hall, List.take_length] at hunderstands
      obtain ⟨rfl, hcut⟩ := hunderstands
      rw [data, hclient]
      rcases replied_cases h.accepts with hnone | ⟨c', text, -, -, hreplied, htext⟩
      · rw [replied_of_connection hc, List.append_eq_nil_iff] at hnone
        exact hnone.2.symm
      · -- a response ends, so the client is not waiting for it any more
        have hends : Ends blankLine (utf8Encode text) := by
          rcases htext with rfl | ⟨⟨status, message, extra, -, hhead⟩, -⟩
          · exact isHead_established.ends
          · exact hhead.ends
        rw [hreplied, hends.cutAfter_eq] at hcut
        cases hcut
  | connected data =>
      have hread := (h.transparent fun _ => ⟨"", "", ""⟩).connected data hclient
      rw [Session.data, hclient]
      exact hread.2.1 hall
  | failed rejection =>
      have hfailed := (h.transparent fun _ => ⟨"", "", ""⟩).failed rejection hclient
      obtain ⟨-, c', hc', hnone⟩ := hfailed.resolve_left fun heq => herror (heq ▸ hclient)
      obtain rfl := Option.some.inj (hc.symm.trans hc')
      omega

theorem Joint.data_relayed_begins (h : s.Joint r) : s.data <+: s.relayed := by
  cases hclient : s.client with
  | waiting buffer => simp [data, hclient]
  | connected data =>
      have hread := (h.transparent fun _ => ⟨"", "", ""⟩).connected data hclient
      rw [Session.data, hclient]
      exact hread.1
  | failed status => simp [data, hclient]

end Session

/-! ## A tunnel over a channel -/

/-- A session over a channel. -/
structure Tunnelled (c : Channel UInt8) where
  lower : c.State
  /-- The session, once its client has sent the request. -/
  session : Option Session
  /-- What the target has sent. -/
  back : Bytes

namespace Tunnelled

variable {c : Channel UInt8} {r : Request}

/-- What happens in a tunnel. -/
inductive Event (c : Channel UInt8)
  /-- Something happens in the channel. -/
  | lower (e : c.Event)
  /-- The client sends its request. -/
  | request
  /-- The server reads the next bytes that come out of the channel. -/
  | deliver (n : ℕ)
  /-- The client reads the next bytes that come back. -/
  | receive (n : ℕ)
  /-- The handler acts, or the socket of the connection fails or closes. -/
  | handler (e : Forward.Event)
  /-- The tunnel reads the next bytes of the target. -/
  | relay (n : ℕ)
  /-- The client's request fails. -/
  | error

/-- Nothing has been sent. -/
def new (c : Channel UInt8) : Tunnelled c := ⟨c.new, none, []⟩

/-- What the server has written more goes into the channel. -/
def follow (t : Tunnelled c) (s s' : Session) : Tunnelled c :=
  { t with lower := c.reply (s'.replied.drop s.replied.length) t.lower, session := some s' }

/-- The reaction to one event. -/
def step (r : Request) (t : Tunnelled c) : Event c → Tunnelled c
  | .lower e => { t with lower := c.step t.lower e }
  | .request => { t with lower := c.write r.bytes t.lower, session := some (Session.new r) }
  | .deliver n =>
    match t.session with
    | none => t
    | some s =>
      let chunk := ((c.view t.lower).out.drop s.taken).take n
      { t with session := some { s with server := s.server.onChunk chunk, taken := s.taken + n } }
  | .receive n =>
    match t.session with
    | none => t
    | some s =>
      let chunk := ((c.view t.lower).read.drop s.received).take n
      { t with
        session := some { s with client := s.client.onChunk chunk, received := s.received + n } }
  | .handler e =>
    match t.session with
    | none => t
    | some s => t.follow s (s.step (.handler e))
  | .relay n =>
    match t.session with
    | none => t
    | some s => t.follow s (s.step (.target ((t.back.drop s.relayed.length).take n)))
  | .error =>
    match t.session with
    | none => t
    | some s => { t with session := some (s.step .error) }

/-- The client sends its request once the channel is ready for it. What is read is what comes out
of the channel and what the target has sent; otherwise as in a session by itself. -/
def Admits (t : Tunnelled c) : Event c → Prop
  | .lower e => c.Admits t.lower e
  | .request => t.session = none ∧ c.Ready t.lower
  | .deliver n => ∃ s, t.session = some s ∧ s.taken + n ≤ (c.view t.lower).out.length ∧
    ∀ conn, s.connection? = some conn → conn.flowing = true ∧ conn.destroyed = false
  | .receive n => ∃ s, t.session = some s ∧ s.received + n ≤ (c.view t.lower).read.length
  | .handler e => ∃ s, t.session = some s ∧ s.Admits (.handler e)
  | .relay n => ∃ s, t.session = some s ∧
    s.relayed.length + n ≤ t.back.length ∧
      s.Admits (.target ((t.back.drop s.relayed.length).take n))
  | .error => t.session ≠ none

/-- The client has connected. -/
def Ready (t : Tunnelled c) : Prop :=
  c.Ready t.lower ∧ ∃ s, t.session = some s ∧ ∃ data, s.client = .connected data

/-- The near end writes. -/
def write (chunk : Bytes) (t : Tunnelled c) : Tunnelled c :=
  { t with
    lower := c.write chunk t.lower
    session := t.session.map fun s => s.step (.send chunk) }

/-- The target sends. -/
def reply (chunk : Bytes) (t : Tunnelled c) : Tunnelled c := { t with back := t.back ++ chunk }

/-- The client's side of the tunnel and the target's. -/
def view (r : Request) (t : Tunnelled c) : View UInt8 :=
  match t.session with
  | none => ⟨[], [], t.back, []⟩
  | some s => ⟨s.sent.drop r.bytes.length, s.given, t.back, s.data⟩

/-- The connection is bound, the client's request has not failed, and everything has been read. -/
def Settled (t : Tunnelled c) : Prop :=
  c.Settled t.lower ∧ ∃ s, t.session = some s ∧
    (∃ conn, s.connection? = some conn ∧ 0 < conn.pipes) ∧ s.client ≠ .failed .error ∧
      s.taken = (c.view t.lower).out.length ∧ s.received = (c.view t.lower).read.length ∧
        s.relayed = t.back

/-- The session reads what the channel carries, and writes into it. -/
structure Coupled (r : Request) (v : View UInt8) (back : Bytes) (s : Session) : Prop where
  joint : s.Joint r
  written_eq : v.written = s.sent
  back_eq : v.back = s.replied
  taken_le : s.taken ≤ v.out.length
  received_le : s.received ≤ v.read.length
  relayed_begins : s.relayed <+: back

/-- **The invariant of a tunnel over a channel.** -/
structure Inv (r : Request) (t : Tunnelled c) : Prop where
  lower : c.Inv t.lower
  unused : t.session = none → (c.view t.lower).written = [] ∧ (c.view t.lower).back = []
  coupled : ∀ s, t.session = some s → Coupled r (c.view t.lower) t.back s

namespace Coupled

variable {v v' : View UInt8} {back : Bytes} {s : Session}

/-- More comes out of the channel. -/
theorem lower (h : Coupled r v back s) (hgrows : v.Grows v') : Coupled r v' back s where
  joint := h.joint
  written_eq := hgrows.written_eq.trans h.written_eq
  back_eq := hgrows.back_eq.trans h.back_eq
  taken_le := h.taken_le.trans hgrows.out_begins.length_le
  received_le := h.received_le.trans hgrows.read_begins.length_le
  relayed_begins := h.relayed_begins

/-- **The server reads what the client has sent**, if it reads what comes out of the channel. -/
theorem deliver_eq (h : Coupled r v back s) (hv : v.Faithful) {n : ℕ}
    (hle : s.taken + n ≤ v.out.length) :
    { s with server := s.server.onChunk ((v.out.drop s.taken).take n), taken := s.taken + n } =
      s.step (.deliver n) := by
  rw [take_drop_of_begins hv.1 hle, h.written_eq]
  rfl

theorem deliver (h : Coupled r v back s) (hv : v.Faithful) {n : ℕ}
    (hle : s.taken + n ≤ v.out.length)
    (hopen : ∀ conn, s.connection? = some conn → conn.flowing = true ∧ conn.destroyed = false) :
    Coupled r v back (s.step (.deliver n)) where
  joint := Session.joint_step h.joint (e := .deliver n)
    ⟨hle.trans (h.written_eq ▸ hv.1.length_le), hopen⟩
  written_eq := h.written_eq
  back_eq := h.back_eq.trans (Session.deliver_adds h.joint n).1.symm
  taken_le := hle
  received_le := h.received_le
  relayed_begins := h.relayed_begins

/-- **The client reads what the server has written**, if it reads what comes back. -/
theorem receive_eq (h : Coupled r v back s) (hv : v.Faithful) {n : ℕ}
    (hle : s.received + n ≤ v.read.length) :
    { s with
      client := s.client.onChunk ((v.read.drop s.received).take n)
      received := s.received + n } = s.step (.receive n) := by
  rw [take_drop_of_begins hv.2 hle, h.back_eq]
  rfl

theorem receive (h : Coupled r v back s) (hv : v.Faithful) {n : ℕ}
    (hle : s.received + n ≤ v.read.length) : Coupled r v back (s.step (.receive n)) where
  joint := Session.joint_step h.joint (e := .receive n) (hle.trans (h.back_eq ▸ hv.2.length_le))
  written_eq := h.written_eq
  back_eq := h.back_eq
  taken_le := h.taken_le
  received_le := hle
  relayed_begins := h.relayed_begins

/-- The server writes into the channel. -/
theorem follow (h : Coupled r v back s) {s' : Session} (hjoint : s'.Joint r)
    (hreplied : s.replied <+: s'.replied) (hsent : s'.sent = s.sent) (htaken : s'.taken = s.taken)
    (hreceived : s'.received = s.received) (hrelayed : s'.relayed <+: back) :
    Coupled r (v.reply (s'.replied.drop s.replied.length)) back s' where
  joint := hjoint
  written_eq := h.written_eq.trans hsent.symm
  back_eq := by
    obtain ⟨more, hmore⟩ := hreplied
    rw [View.reply, ← hmore, List.drop_left, h.back_eq]
  taken_le := htaken.trans_le h.taken_le
  received_le := hreceived.trans_le h.received_le
  relayed_begins := hrelayed

/-- The near end writes. -/
theorem write (h : Coupled r v back s) (chunk : Bytes) :
    Coupled r (v.write chunk) back (s.step (.send chunk)) where
  joint := Session.joint_send h.joint chunk
  written_eq := congrArg (· ++ chunk) h.written_eq
  back_eq := h.back_eq
  taken_le := h.taken_le
  received_le := h.received_le
  relayed_begins := h.relayed_begins

/-- The client's request fails. -/
theorem error (h : Coupled r v back s) : Coupled r v back (s.step .error) where
  joint := Session.joint_error h.joint
  written_eq := h.written_eq
  back_eq := h.back_eq
  taken_le := h.taken_le
  received_le := h.received_le
  relayed_begins := h.relayed_begins

/-- The target sends. -/
theorem reply (h : Coupled r v back s) (chunk : Bytes) : Coupled r v (back ++ chunk) s where
  joint := h.joint
  written_eq := h.written_eq
  back_eq := h.back_eq
  taken_le := h.taken_le
  received_le := h.received_le
  relayed_begins := h.relayed_begins.trans (List.prefix_append _ _)

end Coupled

/-! ## A tunnel over a channel is a channel -/

variable {t : Tunnelled c}

theorem inv_new (r : Request) : (new c).Inv r where
  lower := c.inv_new
  unused _ := by
    rw [new, c.view_new]
    exact ⟨rfl, rfl⟩
  coupled _ hnone := by cases hnone

/-- The session of a tunnel, and its view. -/
theorem view_of_session {s : Session} (h : t.session = some s) :
    t.view r = ⟨s.sent.drop r.bytes.length, s.given, t.back, s.data⟩ := by
  rw [view, h]

/-- What a session does that writes into the channel. -/
theorem inv_follow (h : t.Inv r) {s s' : Session} (hs : t.session = some s) (hjoint : s'.Joint r)
    (hreplied : s.replied <+: s'.replied) (hsent : s'.sent = s.sent) (htaken : s'.taken = s.taken)
    (hreceived : s'.received = s.received) (hrelayed : s'.relayed <+: t.back) :
    (t.follow s s').Inv r where
  lower := c.inv_reply _ h.lower
  unused hnone := by cases hnone
  coupled s'' hs'' := by
    cases hs''
    rw [follow, c.view_reply _ h.lower]
    exact (h.coupled s hs).follow hjoint hreplied hsent htaken hreceived hrelayed

/-- A session keeps its channel. -/
theorem inv_session (h : t.Inv r) {s' : Session} (hcoupled : Coupled r (c.view t.lower) t.back s') :
    Inv r { t with session := some s' } where
  lower := h.lower
  unused hnone := by cases hnone
  coupled s'' hs'' := by
    cases hs''
    exact hcoupled

theorem inv_step (h : t.Inv r) {e : Event c} (hadm : t.Admits e) : (t.step r e).Inv r := by
  have hfaithful := c.faithful h.lower
  cases e with
  | lower e =>
      have hgrows := c.view_step h.lower hadm
      exact ⟨c.inv_step h.lower hadm,
        fun hnone => (h.unused hnone).imp hgrows.written_eq.trans hgrows.back_eq.trans,
        fun s hs => (h.coupled s hs).lower hgrows⟩
  | request =>
      obtain ⟨hnone, hready⟩ := hadm
      obtain ⟨hwritten, hback⟩ := h.unused hnone
      refine ⟨c.inv_write _ h.lower hready, fun hsome => (by cases hsome), fun s hs => ?_⟩
      cases hs
      change Coupled r (c.view (c.write r.bytes t.lower)) t.back (Session.new r)
      rw [c.view_write r.bytes h.lower hready]
      exact ⟨Session.joint_new r, congrArg (· ++ r.bytes) hwritten, hback, Nat.zero_le _,
        Nat.zero_le _, List.nil_prefix⟩
  | deliver n =>
      obtain ⟨s, hs, hle, hopen⟩ := hadm
      have hcoupled := h.coupled s hs
      have hstep : t.step r (.deliver n) = { t with session := some (s.step (.deliver n)) } := by
        rw [step, hs, ← hcoupled.deliver_eq hfaithful hle]
      rw [hstep]
      exact inv_session h (hcoupled.deliver hfaithful hle hopen)
  | receive n =>
      obtain ⟨s, hs, hle⟩ := hadm
      have hcoupled := h.coupled s hs
      have hstep : t.step r (.receive n) = { t with session := some (s.step (.receive n)) } := by
        rw [step, hs, ← hcoupled.receive_eq hfaithful hle]
      rw [hstep]
      exact inv_session h (hcoupled.receive hfaithful hle)
  | handler e =>
      obtain ⟨s, hs, hadm⟩ := hadm
      have hcoupled := h.coupled s hs
      obtain ⟨hsent, htaken, hreceived, hrelayed, -⟩ := s.handler_keeps e
      have hstep : t.step r (.handler e) = t.follow s (s.step (.handler e)) := by rw [step, hs]
      rw [hstep]
      exact inv_follow h hs (Session.joint_handler hcoupled.joint hadm)
        (Session.handler_adds hcoupled.joint hadm).1 hsent htaken hreceived
        (hrelayed ▸ hcoupled.relayed_begins)
  | relay n =>
      obtain ⟨s, hs, hle, hadm⟩ := hadm
      have hcoupled := h.coupled s hs
      have hstep : t.step r (.relay n) =
          t.follow s (s.step (.target ((t.back.drop s.relayed.length).take n))) := by
        rw [step, hs]
      rw [hstep]
      refine inv_follow h hs (Session.joint_target hcoupled.joint hadm) ?_ rfl rfl rfl ?_
      · rw [(Session.target_adds hadm).1]
        exact List.prefix_append _ _
      · obtain ⟨more, hmore⟩ := hcoupled.relayed_begins
        have hchunk : (t.back.drop s.relayed.length).take n = more.take n := by
          rw [← hmore, List.drop_left]
        rw [hchunk, ← hmore]
        exact (List.prefix_append_right_inj _).mpr (List.take_prefix _ _)
  | error =>
      obtain ⟨s, hs⟩ := Option.ne_none_iff_exists'.mp hadm
      rw [step, hs]
      exact inv_session h (h.coupled s hs).error

/-- More comes out of the tunnel, and nothing is written at its ends. -/
theorem view_step (h : t.Inv r) {e : Event c} (hadm : t.Admits e) :
    (t.view r).Grows ((t.step r e).view r) := by
  have hfaithful := c.faithful h.lower
  cases e with
  | lower e => exact .refl _
  | request =>
      rw [view, hadm.1]
      exact ⟨by simp [view, step, Session.new], List.nil_prefix, rfl, List.nil_prefix⟩
  | deliver n =>
      obtain ⟨s, hs, hle, hopen⟩ := hadm
      have hcoupled := h.coupled s hs
      have hstep : t.step r (.deliver n) = { t with session := some (s.step (.deliver n)) } := by
        rw [step, hs, ← hcoupled.deliver_eq hfaithful hle]
      rw [hstep, view_of_session hs, view]
      exact ⟨rfl, (Session.deliver_adds hcoupled.joint n).2, rfl, List.prefix_rfl⟩
  | receive n =>
      obtain ⟨s, hs, hle⟩ := hadm
      have hcoupled := h.coupled s hs
      have hstep : t.step r (.receive n) = { t with session := some (s.step (.receive n)) } := by
        rw [step, hs, ← hcoupled.receive_eq hfaithful hle]
      rw [hstep, view_of_session hs, view]
      exact ⟨rfl, List.prefix_rfl, rfl, s.receive_adds n⟩
  | handler e =>
      obtain ⟨s, hs, hadm⟩ := hadm
      have hcoupled := h.coupled s hs
      obtain ⟨hsent, -, -, -, hclient⟩ := s.handler_keeps e
      have hdata : (s.step (.handler e)).data = s.data := by
        rw [Session.data, hclient, Session.data]
      have hstep : t.step r (.handler e) = t.follow s (s.step (.handler e)) := by rw [step, hs]
      rw [hstep, view_of_session hs, view, follow]
      refine ⟨congrArg (List.drop _) hsent, (Session.handler_adds hcoupled.joint hadm).2, rfl, ?_⟩
      exact hdata ▸ List.prefix_rfl
  | relay n =>
      obtain ⟨s, hs, hle, hadm⟩ := hadm
      have hstep : t.step r (.relay n) =
          t.follow s (s.step (.target ((t.back.drop s.relayed.length).take n))) := by
        rw [step, hs]
      have hgiven := (Session.target_adds hadm).2
      rw [hstep, view_of_session hs, view, follow]
      exact ⟨rfl, hgiven ▸ List.prefix_rfl, rfl, List.prefix_rfl⟩
  | error =>
      obtain ⟨s, hs⟩ := Option.ne_none_iff_exists'.mp hadm
      rw [step, hs, view_of_session hs, view]
      exact ⟨rfl, List.prefix_rfl, rfl, s.error_adds⟩

/-- A client stays connected. -/
theorem ready_step (h : t.Inv r) {e : Event c} (hadm : t.Admits e) (hready : t.Ready) :
    (t.step r e).Ready := by
  obtain ⟨hlower, s, hs, data, hclient⟩ := hready
  cases e with
  | lower e => exact ⟨c.ready_step h.lower hadm hlower, s, hs, data, hclient⟩
  | request =>
      rw [hadm.1] at hs
      cases hs
  | deliver n =>
      rw [step, hs]
      exact ⟨hlower, _, rfl, data, hclient⟩
  | receive n =>
      rw [step, hs]
      refine ⟨hlower, _, rfl, data ++ ((c.view t.lower).read.drop s.received).take n, ?_⟩
      rw [hclient, Stage.onChunk]
  | handler e =>
      rw [step, hs]
      exact ⟨c.ready_reply _ hlower, _, rfl, data, (s.handler_keeps e).2.2.2.2.trans hclient⟩
  | relay n =>
      rw [step, hs]
      exact ⟨c.ready_reply _ hlower, _, rfl, data, hclient⟩
  | error =>
      rw [step, hs]
      refine ⟨hlower, _, rfl, data, ?_⟩
      simp only [Session.step, hclient, Stage.onError]

theorem ready_write (chunk : Bytes) (hready : t.Ready) : (t.write chunk).Ready := by
  obtain ⟨hlower, s, hs, data, hclient⟩ := hready
  refine ⟨c.ready_write chunk hlower, s.step (.send chunk), ?_, data, hclient⟩
  rw [write, hs]
  rfl

theorem inv_write (h : t.Inv r) (chunk : Bytes) (hready : t.Ready) : (t.write chunk).Inv r := by
  obtain ⟨hlower, s, hs, -⟩ := hready
  refine ⟨c.inv_write chunk h.lower hlower, fun hnone => ?_, fun s' hs' => ?_⟩
  · rw [write, hs] at hnone
    cases hnone
  · rw [write, hs] at hs'
    cases hs'
    rw [write, c.view_write chunk h.lower hlower]
    exact (h.coupled s hs).write chunk

theorem view_write (h : t.Inv r) (chunk : Bytes) (hready : t.Ready) :
    (t.write chunk).view r = (t.view r).write chunk := by
  obtain ⟨-, s, hs, -⟩ := hready
  have hlength := (h.coupled s hs).joint.sent_begins.length_le
  have hsession : (t.write chunk).session = some (s.step (.send chunk)) := by
    rw [write, hs]
    rfl
  rw [view_of_session hsession, view_of_session hs, View.write]
  simp only [Session.step, List.drop_append_of_le_length hlength]
  rfl

theorem inv_reply (h : t.Inv r) (chunk : Bytes) : (t.reply chunk).Inv r where
  lower := h.lower
  unused := h.unused
  coupled s hs := (h.coupled s hs).reply chunk

theorem view_reply (chunk : Bytes) : (t.reply chunk).view r = (t.view r).reply chunk := by
  cases hs : t.session with
  | none => simp [view, reply, hs, View.reply]
  | some s => simp [view, reply, hs, View.reply]

/-- **A tunnel gives each end what the other has written.** -/
theorem faithful (h : t.Inv r) : (t.view r).Faithful := by
  cases hs : t.session with
  | none =>
      rw [view, hs]
      exact ⟨List.prefix_rfl, List.nil_prefix⟩
  | some s =>
      have hcoupled := h.coupled s hs
      rw [view_of_session hs]
      exact ⟨(hcoupled.joint.transparent fun _ => ⟨"", "", ""⟩).given_begins,
        hcoupled.joint.data_relayed_begins.trans hcoupled.relayed_begins⟩

/-- **When it has settled, it has given each end all of it.** -/
theorem full (h : t.Inv r) (hsettled : t.Settled) : (t.view r).Full := by
  obtain ⟨hlower, s, hs, ⟨conn, hconn, hpipes⟩, herror, htaken, hreceived, hrelayed⟩ := hsettled
  have hcoupled := h.coupled s hs
  obtain ⟨hout, hread⟩ := c.full h.lower hlower
  rw [hout, hcoupled.written_eq] at htaken
  rw [hread, hcoupled.back_eq] at hreceived
  rw [view_of_session hs]
  constructor
  · have hgiven := (hcoupled.joint.transparent fun _ => ⟨"", "", ""⟩).given_eq conn hconn hpipes
    change s.given = s.sent.drop r.bytes.length
    rw [hgiven, Session.behind, htaken, ← List.length_drop, List.take_length]
  · exact (hcoupled.joint.data_eq hreceived herror hconn hpipes).trans hrelayed

end Tunnelled

/-- **The tunnel of a session over a channel.** -/
def tunnelled (c : Channel UInt8) (r : Request) : Channel UInt8 where
  State := Tunnelled c
  Event := Tunnelled.Event c
  new := Tunnelled.new c
  step := Tunnelled.step r
  Admits := Tunnelled.Admits
  Ready := Tunnelled.Ready
  write := Tunnelled.write
  reply := Tunnelled.reply
  view := Tunnelled.view r
  Settled := Tunnelled.Settled
  Inv := Tunnelled.Inv r
  view_new := rfl
  inv_new := Tunnelled.inv_new r
  inv_step h hadm := Tunnelled.inv_step h hadm
  view_step h hadm := Tunnelled.view_step h hadm
  ready_step h hadm hready := Tunnelled.ready_step h hadm hready
  inv_write chunk h := Tunnelled.inv_write h chunk
  view_write chunk h := Tunnelled.view_write h chunk
  ready_write chunk h := Tunnelled.ready_write chunk h
  inv_reply chunk h := Tunnelled.inv_reply h chunk
  view_reply chunk _ := Tunnelled.view_reply chunk
  ready_reply _ h := h
  faithful h := Tunnelled.faithful h
  full h hsettled := Tunnelled.full h hsettled

/-! ## Any number of proxies -/

/-- The tunnel through a list of proxies, the last one first: the requests that they get. -/
def tunnels : List Request → Channel UInt8
  | [] => Channel.network UInt8
  | r :: requests => tunnelled (tunnels requests) r

/-- Its sessions. -/
def sessions : (requests : List Request) → (tunnels requests).State → List (Option Session)
  | [], _ => []
  | _ :: requests, (t : Tunnelled (tunnels requests)) => t.session :: sessions requests t.lower

/-- Each session is transparent by itself. -/
theorem transparent_sessions (tail : List Char → UrlTail) (requests : List Request)
    {t : (tunnels requests).State} (h : (tunnels requests).Inv t) :
    List.Forall₂ (fun r session => ∀ s, session = some s → s.Transparent tail r) requests
      (sessions requests t) := by
  induction requests with
  | nil => exact .nil
  | cons r requests ih =>
      exact .cons (fun s hs => ((Tunnelled.Inv.coupled h s hs).joint).transparent tail)
        (ih (Tunnelled.Inv.lower h))

instance (text : String) : Decidable (OneLine text) := inferInstanceAs (Decidable (_ ∧ _))

namespace Session

instance (c : Connection) : Decidable (Fresh c) := inferInstanceAs (Decidable (_ ∧ _))

instance (s : Session) : (e : Event) → Decidable (s.Admits e)
  | .deliver _ => inferInstanceAs (Decidable (_ ∧ ∀ c ∈ s.connection?, _))
  | .receive _ => inferInstanceAs (Decidable (_ ≤ _))
  | .send _ => inferInstanceAs (Decidable True)
  | .handler .bind => inferInstanceAs (Decidable (∀ c ∈ s.connection?, Fresh c))
  | .handler (.refuse _ _ _) =>
    inferInstanceAs (Decidable (_ ∧ _ ∧ _ ∧ ∀ c ∈ s.connection?, Fresh c))
  | .handler .end => inferInstanceAs (Decidable (∀ c ∈ s.connection?, Fresh c))
  | .handler (.data _) => inferInstanceAs (Decidable False)
  | .handler (.error _) => inferInstanceAs (Decidable True)
  | .handler .close => inferInstanceAs (Decidable True)
  | .target _ => inferInstanceAs (Decidable (∃ c ∈ s.connection?, _))
  | .error => inferInstanceAs (Decidable True)

end Session

instance {c : Channel UInt8} [∀ s e, Decidable (c.Admits s e)] [∀ s, Decidable (c.Ready s)]
    (t : Tunnelled c) : (e : Tunnelled.Event c) → Decidable (t.Admits e)
  | .lower e => inferInstanceAs (Decidable (c.Admits t.lower e))
  | .request => inferInstanceAs (Decidable (t.session = none ∧ c.Ready t.lower))
  | .deliver _ => inferInstanceAs (Decidable (∃ s ∈ t.session, _ ∧ ∀ conn ∈ s.connection?, _))
  | .receive _ => inferInstanceAs (Decidable (∃ s ∈ t.session, _))
  | .handler _ => inferInstanceAs (Decidable (∃ s ∈ t.session, _))
  | .relay _ => inferInstanceAs (Decidable (∃ s ∈ t.session, _ ∧ _))
  | .error => inferInstanceAs (Decidable (t.session ≠ none))

instance (stage : Stage) : Decidable (∃ data, stage = .connected data) :=
  match stage with
  | .connected data => isTrue ⟨data, rfl⟩
  | .waiting _ => isFalse (by simp)
  | .failed _ => isFalse (by simp)

instance {c : Channel UInt8} [∀ s, Decidable (c.Ready s)] (t : Tunnelled c) : Decidable t.Ready :=
  inferInstanceAs (Decidable (c.Ready t.lower ∧
    ∃ s ∈ t.session, ∃ data, s.client = .connected data))

instance {c : Channel UInt8} [∀ s, Decidable (c.Settled s)] (t : Tunnelled c) :
    Decidable t.Settled :=
  inferInstanceAs (Decidable (c.Settled t.lower ∧
    ∃ s ∈ t.session, (∃ conn ∈ s.connection?, 0 < conn.pipes) ∧ _))

instance decidableReady :
    (requests : List Request) → ∀ t, Decidable ((tunnels requests).Ready t)
  | [], _ => inferInstanceAs (Decidable True)
  | _ :: requests, (t : Tunnelled (tunnels requests)) =>
    have := decidableReady requests
    inferInstanceAs (Decidable t.Ready)

instance decidableAdmits :
    (requests : List Request) → ∀ t e, Decidable ((tunnels requests).Admits t e)
  | [], (s : Channel.Transit UInt8), .far n =>
    inferInstanceAs (Decidable (s.arrived + n ≤ s.written.length))
  | [], (s : Channel.Transit UInt8), .near n =>
    inferInstanceAs (Decidable (s.returned + n ≤ s.back.length))
  | _ :: requests, (t : Tunnelled (tunnels requests)), (e : Tunnelled.Event (tunnels requests)) =>
    have := decidableReady requests
    have := decidableAdmits requests
    inferInstanceAs (Decidable (t.Admits e))

instance decidableSettled :
    (requests : List Request) → ∀ t, Decidable ((tunnels requests).Settled t)
  | [], (s : Channel.Transit UInt8) =>
    inferInstanceAs (Decidable (s.arrived = s.written.length ∧ s.returned = s.back.length))
  | _ :: requests, (t : Tunnelled (tunnels requests)) =>
    have := decidableSettled requests
    inferInstanceAs (Decidable t.Settled)

instance (requests : List Request) (t : (tunnels requests).State) :
    (move : (tunnels requests).Move) → Decidable ((tunnels requests).Allows t move)
  | .inside e => inferInstanceAs (Decidable ((tunnels requests).Admits t e))
  | .write _ => inferInstanceAs (Decidable ((tunnels requests).Ready t))
  | .reply _ => inferInstanceAs (Decidable True)

/-- Two proxies, one behind the other. -/
def twoRequests : List Request := [Session.shortRequest, Session.shortRequest]

/-- Both sessions are set up, and two bytes go either way. -/
def twoMoves : List (tunnels twoRequests).Move :=
  [.inside (.lower .request), .inside (.lower (.lower (.far 24))), .inside (.lower (.deliver 24)),
    .inside (.lower (.handler .bind)), .inside (.lower (.lower (.near 83))),
    .inside (.lower (.receive 83)), .inside .request, .inside (.lower (.lower (.far 24))),
    .inside (.lower (.deliver 24)), .inside (.deliver 24), .inside (.handler .bind),
    .inside (.lower (.relay 83)), .inside (.lower (.lower (.near 83))),
    .inside (.lower (.receive 83)), .inside (.receive 83), .write [1, 2], .reply [7, 8],
    .inside (.relay 2), .inside (.lower (.relay 2)), .inside (.lower (.lower (.near 2))),
    .inside (.lower (.receive 2)), .inside (.receive 2), .inside (.lower (.lower (.far 2))),
    .inside (.lower (.deliver 2)), .inside (.deliver 2)]

end Proxinator.Forward
