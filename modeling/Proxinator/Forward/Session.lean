import Proxinator.Forward.Response
import Proxinator.Lib.Mark
import Proxinator.Lib.Run

/-!
# A CONNECT session

The forward client asks the forward server for a tunnel with a CONNECT request, the handler of the
server binds the connection or refuses it, and the client takes the socket for connected once it
has read a response with status 200. Both sides read their peer up to a blank line; what lies
behind it in the same chunk is handed on, by the server as `_head` and by the client with
`unshift`. Here both run together, over streams that may be cut anywhere, and the client may send
whatever it wants without waiting for the response. The client's request can fail at any time: its
socket fails or ends, or the response takes too long.

## Main definitions

* `Request` — a CONNECT request as it is sent.
* `Session`, `Session.step`, `Session.Admits` — both parties and the bytes between them.
-/

namespace Proxinator.Forward

open Lib

/-! ## What is read -/

/-- The end of a request, and of a response. -/
def blankLine : Bytes := [0x0D, 0x0A, 0x0D, 0x0A]

/-- A CONNECT request. Node sends none with a space or a line break in its path, or with a line
break in a header. -/
structure Request where
  path : String
  headers : Headers
  path_oneLine : OneLine path
  path_spaceless : ' ' ∉ path.toList
  headers_oneLine : ∀ header ∈ headers, OneLine header.1 ∧ OneLine header.2

namespace Request

/-- Its lines. -/
def lines (r : Request) : List String :=
  ("CONNECT " ++ r.path ++ " HTTP/1.1") :: r.headers.map headerLine

/-- Its bytes. -/
def bytes (r : Request) : Bytes := utf8Encode (String.intercalate "\r\n" (r.lines ++ ["", ""]))

end Request

/-- The target of a request, from its first line. -/
def requestUrl (head : Bytes) : Option Bytes :=
  match splitLines 0x0D 0x0A head with
  | [] => none
  | requestLine :: _ => do
    let (_, rest) ← cutAt 0x20 requestLine
    let (url, _) ← cutAt 0x20 rest
    return url

/-! ## The parties -/

/-- Why the forward client rejects its promise. -/
inductive Rejection
  /-- The response has another status than 200. -/
  | status (status : Bytes)
  /-- What it has read is no response. -/
  | malformed
  /-- `error` was emitted on the request. -/
  | error
  deriving DecidableEq, Repr

/-- The forward client. -/
inductive Stage
  /-- It waits for the response, and has read this much. -/
  | waiting (buffer : Bytes)
  /-- The promise is resolved, and the socket has this to read. -/
  | connected (data : Bytes)
  /-- The promise is rejected. -/
  | failed (rejection : Rejection)
  deriving DecidableEq, Repr

/-- The client reads a chunk. -/
def Stage.onChunk (stage : Stage) (chunk : Bytes) : Stage :=
  match stage with
  | .waiting buffer =>
    match cutAfter blankLine (buffer ++ chunk) with
    | none => .waiting (buffer ++ chunk)
    | some (head, rest) =>
      match readHead head with
      | none => .failed .malformed
      -- what came with the response is put back on the socket
      | some (response, _) =>
        if response.status = utf8Encode "200" then .connected rest
        else .failed (.status response.status)
  | .connected data => .connected (data ++ chunk)
  | .failed rejection => .failed rejection

/-- `error` is emitted on the request: its socket has failed, or has ended before the response, or
`CONNECT_TIMEOUT` is over. -/
def Stage.onError (stage : Stage) : Stage :=
  match stage with
  | .waiting _ => .failed .error
  -- the promise is settled
  | stage => stage

/-- The forward server with this client. -/
inductive Accepting
  /-- It waits for the request, and has read this much. -/
  | reading (buffer : Bytes)
  /-- `connect` was emitted, with the target of the request. -/
  | connected (url : Bytes) (connection : Connection)
  /-- What it has read is no request. -/
  | malformed
  deriving DecidableEq, Repr

/-- The server reads a chunk. -/
def Accepting.onChunk (accepting : Accepting) (chunk : Bytes) : Accepting :=
  match accepting with
  | .reading buffer =>
    match cutAfter blankLine (buffer ++ chunk) with
    | none => .reading (buffer ++ chunk)
    | some (head, rest) =>
      match requestUrl head with
      | none => .malformed
      | some url => .connected url (Connection.accepted rest)
  | .connected url connection => .connected url (connection.onData chunk)
  | .malformed => .malformed

/-- Both parties, what they have sent, and how much of it has been read. -/
structure Session where
  client : Stage
  server : Accepting
  /-- What the client has sent, the request included. -/
  sent : Bytes
  /-- How much of it the server has read. -/
  taken : ℕ
  /-- What the tunnel has written to the client. -/
  relayed : Bytes
  /-- How much the client has read. -/
  received : ℕ
  deriving DecidableEq, Repr

namespace Session

/-- What happens in a session. -/
inductive Event
  /-- The next bytes arrive at the server. -/
  | deliver (n : ℕ)
  /-- The next bytes arrive at the client. -/
  | receive (n : ℕ)
  /-- The client sends more. -/
  | send (chunk : Bytes)
  /-- The handler acts, or the socket of the connection fails or closes. -/
  | handler (e : Forward.Event)
  /-- The target sends to the client. -/
  | target (chunk : Bytes)
  /-- The client's request fails. -/
  | error

/-- The client has sent its request. -/
def new (r : Request) : Session := ⟨.waiting [], .reading [], r.bytes, 0, [], 0⟩

/-- The connection, once there is one. -/
def connection? (s : Session) : Option Connection :=
  match s.server with
  | .connected _ connection => some connection
  | _ => none

/-- What the server has written to the client. -/
def replied (s : Session) : Bytes :=
  match s.server with
  | .connected _ connection => connection.responses.flatMap utf8Encode ++ s.relayed
  | _ => []

/-- What the target has been given. -/
def given (s : Session) : Bytes :=
  match s.server with
  | .connected _ connection => connection.written.flatten ++ connection.piped.flatten
  | _ => []

/-- The reaction to one event. -/
def step (s : Session) : Event → Session
  | .deliver n =>
    { s with server := s.server.onChunk ((s.sent.drop s.taken).take n), taken := s.taken + n }
  | .receive n =>
    { s with
      client := s.client.onChunk ((s.replied.drop s.received).take n)
      received := s.received + n }
  | .send chunk => { s with sent := s.sent ++ chunk }
  | .handler e =>
    match s.server with
    | .connected url connection => { s with server := .connected url (connection.step e) }
    | _ => s
  | .target chunk => { s with relayed := s.relayed ++ chunk }
  | .error => { s with client := s.client.onError }

/-- The handler has done nothing with the connection yet. -/
def Fresh (c : Connection) : Prop := c.pipes = 0 ∧ c.ended = false

/-- What the sockets and the handler do: a socket emits what was sent, in order, and nothing while
it is paused or after it was destroyed; the target is read by the tunnel only. The handler binds the
connection, refuses it with an error status or ends it, once. -/
def Admits (s : Session) : Event → Prop
  | .deliver n => s.taken + n ≤ s.sent.length ∧
    ∀ c, s.connection? = some c → c.flowing = true ∧ c.destroyed = false
  | .receive n => s.received + n ≤ s.replied.length
  | .send _ => True
  | .handler .bind => ∀ c, s.connection? = some c → Fresh c
  | .handler (.refuse _ status headers) => status ≠ some (.ofNat 200) ∧
    (headers.map Prod.fst).Nodup ∧ (∀ header ∈ headers, OneLine header.1 ∧ OneLine header.2) ∧
      ∀ c, s.connection? = some c → Fresh c
  | .handler .end => ∀ c, s.connection? = some c → Fresh c
  | .handler (.data _) => False
  | .handler _ => True
  | .target _ => ∃ c, s.connection? = some c ∧ 0 < c.pipes ∧ c.destroyed = false
  | .error => True

end Session

/-! ## Requests and responses end at their first blank line -/

namespace Request

theorem bytes_eq (r : Request) :
    r.bytes = [0x0D, 0x0A].intercalate (r.lines.map utf8Encode ++ [[], []]) := by
  have hbreak : utf8Encode "\r\n" = [0x0D, 0x0A] := by decide
  have hblank : utf8Encode "" = [] := rfl
  rw [bytes, utf8Encode_intercalate, hbreak, List.map_append]
  simp [hblank]

theorem oneLine (r : Request) : ∀ line ∈ r.lines, OneLine line ∧ line ≠ "" := by
  have hmethod : OneLine "CONNECT " := by simp [OneLine]
  have hversion : OneLine " HTTP/1.1" := by simp [OneLine]
  have hcolon : OneLine ": " := by simp [OneLine]
  intro line hline
  rcases List.mem_cons.mp hline with rfl | hline
  · exact ⟨(hmethod.append r.path_oneLine).append hversion, by simp⟩
  · obtain ⟨header, hheader, rfl⟩ := List.mem_map.mp hline
    obtain ⟨hname, hvalue⟩ := r.headers_oneLine header hheader
    exact ⟨(hname.append hcolon).append hvalue, by simp [headerLine]⟩

/-- **A request ends at its first blank line.** -/
theorem ends (r : Request) : Ends blankLine r.bytes := by
  rw [bytes_eq]
  refine ends_intercalate (by decide) (by simp [lines]) ?_ ?_
  · intro hmem
    obtain ⟨line, hline, hnil⟩ := List.mem_map.mp hmem
    have hempty : line = "" := by
      rw [← utf8Decode_utf8Encode line, hnil]
      exact utf8Decode_eq_empty.mpr rfl
    exact (r.oneLine line hline).2 hempty
  · intro line hmem
    obtain ⟨line, hline, rfl⟩ := List.mem_map.mp hmem
    exact (r.oneLine line hline).1.unbroken

/-- **The server reads the path of the request.** -/
theorem requestUrl_bytes (r : Request) : requestUrl r.bytes = some (utf8Encode r.path) := by
  have hall : ∀ line ∈ r.lines.map utf8Encode ++ [[], []], Unbroken (0x0D : UInt8) 0x0A line := by
    intro line hmem
    rcases List.mem_append.mp hmem with hmem | hmem
    · obtain ⟨line, hline, rfl⟩ := List.mem_map.mp hmem
      exact (r.oneLine line hline).1.unbroken
    · rw [show line = [] by simpa using hmem]
      exact unbroken_nil
  have hmethod : utf8Encode "CONNECT " = utf8Encode "CONNECT" ++ [0x20] := by decide
  have hversion : utf8Encode " HTTP/1.1" = 0x20 :: utf8Encode "HTTP/1.1" := by decide
  have hfirst : utf8Encode ("CONNECT " ++ r.path ++ " HTTP/1.1") =
      utf8Encode "CONNECT" ++ 0x20 :: (utf8Encode r.path ++ 0x20 :: utf8Encode "HTTP/1.1") := by
    simp [hmethod, hversion]
  have hpath : (0x20 : UInt8) ∉ utf8Encode r.path := notMem_utf8Encode (c := ' ') rfl r.path_spaceless
  rw [bytes_eq, requestUrl, splitLines_intercalate (by simp) hall, lines, List.map_cons, hfirst]
  simp only [List.cons_append]
  rw [cutAt_append (by decide), Option.bind_eq_bind, Option.bind_some, cutAt_append hpath]
  rfl

end Request

/-- Lines with nothing but a blank one behind the first blank line. -/
theorem eq_takeWhile_append {lines : List Bytes}
    (h : (lines.dropWhile (· ≠ [])).drop 1 = [[]]) :
    lines = lines.takeWhile (· ≠ []) ++ [[], []] := by
  have hsplit := lines.takeWhile_append_dropWhile (p := (· ≠ []))
  have hhead := List.head?_dropWhile_not (· ≠ []) lines
  cases hdrop : lines.dropWhile (· ≠ []) with
  | nil =>
      rw [hdrop] at h
      cases h
  | cons line rest =>
      rw [hdrop] at h hhead hsplit
      have hline : line = [] := by simpa using hhead
      rw [hline, show rest = [[]] from h] at hsplit
      exact hsplit.symm

/-- **A response ends at its first blank line.** -/
theorem IsHead.ends {status : NumberText} {message : String} {extra : Headers} {b : Bytes}
    (h : IsHead status message extra b) : Ends blankLine b := by
  obtain ⟨headers, -, hread⟩ := h.read
  have hbreaks := h.breaks
  have hunbroken : ∀ line ∈ splitLines 0x0D 0x0A b, Unbroken (0x0D : UInt8) 0x0A line :=
    fun line => unbroken_of_mem_splitLines
  rw [readHead] at hread
  cases hlines : splitLines 0x0D 0x0A b with
  | nil => exact absurd hlines (splitLines_ne_nil b)
  | cons statusLine lines =>
      simp only [hlines, Option.bind_eq_bind, Option.bind_eq_some_iff, Option.pure_def,
        Option.some.injEq, Prod.mk.injEq] at hread
      obtain ⟨⟨version, rest⟩, hversion, ⟨status', reason⟩, -, -, hdrop⟩ := hread
      have hne : statusLine ≠ [] := by
        rintro rfl
        cases hversion
      have hall := eq_takeWhile_append hdrop
      rw [hlines, hall, ← List.cons_append] at hbreaks
      rw [hbreaks]
      refine ends_intercalate (by decide) (by simp) ?_ fun line hmem => hunbroken line ?_
      · intro hmem
        rcases List.mem_cons.mp hmem with heq | hmem
        · exact hne heq.symm
        · simpa using List.mem_takeWhile_imp hmem
      · rw [hlines, hall, ← List.cons_append]
        exact List.mem_append_left _ hmem

end Proxinator.Forward
