import Proxinator.Forward
import Proxinator.Lib.Lines
import Proxinator.Lib.Utf8

/-!
# The replies of the forward server

`writeResponse` puts the message of an error, which may come from an upstream proxy, into the
status line of its reply. A reader of the reply that takes CR LF, CR and LF alone for the end of
a line sees the status line, one line for each header, a blank line and nothing after it
(`writeResponse_isHead`): the message cannot split the reply. A header of the name `__proto__` has
no line in it, since `Object.assign` makes no property of it.

## Main definitions

* `readHead` — the reader.
* `Overrides` — the headers that are sent.
* `assignable` — the headers that `Object.assign` keeps.
-/

namespace Proxinator.Forward

open Lib

/-! ## The reader -/

/-- A response head. -/
structure Head where
  version : Bytes
  status : Bytes
  reason : Bytes
  headerLines : List Bytes
  deriving DecidableEq, Repr

/-- Read a response head, up to the first blank line. What follows it comes with it, in lines. -/
def readHead (b : Bytes) : Option (Head × List Bytes) :=
  match splitLines 0x0D 0x0A b with
  | [] => none
  | statusLine :: lines => do
    let (version, rest) ← cutAt 0x20 statusLine
    let (status, reason) ← cutAt 0x20 rest
    return (⟨version, status, reason, lines.takeWhile (· ≠ [])⟩,
      (lines.dropWhile (· ≠ [])).drop 1)

/-- **The headers are the defaults, overridden by the extra ones.** -/
structure Overrides (defaults extra headers : Headers) : Prop where
  nodup : (headers.map Prod.fst).Nodup
  mem_iff : ∀ header, header ∈ headers ↔
    header ∈ extra ∨ header ∈ defaults ∧ ∀ value, (header.1, value) ∉ extra

/-- **The bytes are one response head** with the status, the message and the headers, and
nothing after it. -/
structure IsHead (statusCode : NumberText) (statusMessage : String) (extra : Headers)
    (b : Bytes) : Prop where
  read : ∃ headers, Overrides defaultHeaders extra headers ∧
    readHead b = some
      (⟨utf8Encode "HTTP/1.1", utf8Encode statusCode.text,
        utf8Encode (safeMessage statusMessage),
        headers.map fun header => utf8Encode (header.1 ++ ": " ++ header.2)⟩, [[]])
  /-- Every line break is a CR LF. -/
  breaks : b = [0x0D, 0x0A].intercalate (splitLines 0x0D 0x0A b)

/-- The headers that `Object.assign` makes properties of. -/
def assignable (headers : Headers) : Headers := headers.filter (·.1 ≠ "__proto__")

/-! ## The headers -/

/-- A header that is not replaced. -/
theorem name_ne_of_not_any {headers : Headers} {name : String}
    (h : ¬ headers.any (·.1 = name) = true) : ∀ header ∈ headers, header.1 ≠ name := by
  intro header hmem heq
  exact h (List.any_eq_true.mpr ⟨header, hmem, by simpa using heq⟩)

theorem mem_setHeader {headers : Headers} {header header' : String × String}
    (hproto : header.1 ≠ "__proto__") :
    header' ∈ setHeader headers header ↔
      header' = header ∨ header' ∈ headers ∧ header'.1 ≠ header.1 := by
  rw [setHeader, if_neg hproto]
  split_ifs with hany
  · obtain ⟨old, hold, hname⟩ := List.any_eq_true.mp hany
    rw [List.mem_map]
    constructor
    · rintro ⟨h, hmem, rfl⟩
      split_ifs with heq
      · exact Or.inl rfl
      · exact Or.inr ⟨hmem, heq⟩
    · rintro (rfl | ⟨hmem, hne⟩)
      · exact ⟨old, hold, if_pos (by simpa using hname)⟩
      · exact ⟨header', hmem, if_neg hne⟩
  · have hnone := name_ne_of_not_any hany
    rw [List.mem_append, List.mem_singleton]
    constructor
    · rintro (hmem | rfl)
      · exact Or.inr ⟨hmem, hnone header' hmem⟩
      · exact Or.inl rfl
    · rintro (rfl | ⟨hmem, -⟩)
      · exact Or.inr rfl
      · exact Or.inl hmem

theorem nodup_setHeader {headers : Headers} (h : (headers.map Prod.fst).Nodup)
    (header : String × String) : ((setHeader headers header).map Prod.fst).Nodup := by
  rw [setHeader]
  split_ifs with hproto hany
  · exact h
  · have hnames : (headers.map fun h => if h.1 = header.1 then header else h).map Prod.fst =
        headers.map Prod.fst := by
      rw [List.map_map]
      refine List.map_congr_left fun h _ => ?_
      simp only [Function.comp]
      split_ifs with heq
      · exact heq.symm
      · rfl
    rwa [hnames]
  · have hnone := name_ne_of_not_any hany
    rw [List.map_append, List.nodup_append]
    refine ⟨h, by simp, ?_⟩
    intro name hname name' hname'
    obtain ⟨h, hmem, rfl⟩ := List.mem_map.mp hname
    simp only [List.map_singleton, List.mem_singleton] at hname'
    exact hname' ▸ hnone h hmem

/-- **`Object.assign`** of the extra headers to the defaults. -/
theorem overrides_foldl {defaults extra : Headers} (hdefaults : (defaults.map Prod.fst).Nodup)
    (hextra : (extra.map Prod.fst).Nodup) :
    Overrides defaults (assignable extra) (extra.foldl setHeader defaults) := by
  induction extra generalizing defaults with
  | nil => exact ⟨hdefaults, by simp [assignable]⟩
  | cons header extra ih =>
      rw [List.map_cons, List.nodup_cons] at hextra
      obtain ⟨hnodup, hmem⟩ := ih (nodup_setHeader hdefaults header) hextra.2
      by_cases hproto : header.1 = "__proto__"
      · have hsame : setHeader defaults header = defaults := if_pos hproto
        have hkept : assignable (header :: extra) = assignable extra :=
          List.filter_cons_of_neg (by simpa using hproto)
        rw [hsame] at hnodup hmem
        rw [hkept, List.foldl_cons, hsame]
        exact ⟨hnodup, hmem⟩
      · have hadded : assignable (header :: extra) = header :: assignable extra :=
          List.filter_cons_of_pos (by simpa using hproto)
        have hnew : ∀ value, (header.1, value) ∉ assignable extra := by
          intro value hvalue
          exact hextra.1 (List.mem_map.mpr ⟨_, List.mem_of_mem_filter hvalue, rfl⟩)
        rw [hadded]
        refine ⟨hnodup, fun header' => ?_⟩
        rw [List.foldl_cons, hmem, mem_setHeader hproto, List.mem_cons]
        simp only [List.mem_cons, not_or]
        constructor
        · rintro (hextra' | ⟨rfl | ⟨hdefault, hne⟩, hnot⟩)
          · exact Or.inl (Or.inr hextra')
          · exact Or.inl (Or.inl rfl)
          · refine Or.inr ⟨hdefault, fun value => ⟨?_, hnot value⟩⟩
            rintro rfl
            exact hne rfl
        · rintro ((rfl | hextra') | ⟨hdefault, hnot⟩)
          · exact Or.inr ⟨Or.inl rfl, hnew⟩
          · exact Or.inl hextra'
          · refine Or.inr ⟨Or.inr ⟨hdefault, fun heq => ?_⟩, fun value => (hnot value).2⟩
            exact (hnot header.2).1 (by rw [heq])

/-- `Object.keys` only orders them. -/
theorem orderKeys_perm (headers : Headers) : (orderKeys headers).Perm headers :=
  ((List.perm_insertionSort _ _).append_right _).trans (List.filter_append_perm _ _)

theorem Overrides.perm {defaults extra headers headers' : Headers}
    (h : Overrides defaults extra headers) (hperm : headers'.Perm headers) :
    Overrides defaults extra headers' where
  nodup := ((hperm.map Prod.fst).nodup_iff).mpr h.nodup
  mem_iff header := hperm.mem_iff.trans (h.mem_iff header)

/-! ## The lines -/

/-- There is no line break in the text. -/
def OneLine (text : String) : Prop := '\r' ∉ text.toList ∧ '\n' ∉ text.toList

theorem OneLine.append {text text' : String} (h : OneLine text) (h' : OneLine text') :
    OneLine (text ++ text') := by
  rw [OneLine, String.toList_append]
  exact ⟨by simp [h.1, h'.1], by simp [h.2, h'.2]⟩

theorem OneLine.unbroken {text : String} (h : OneLine text) :
    Unbroken 0x0D 0x0A (utf8Encode text) :=
  ⟨notMem_utf8Encode (c := '\r') rfl h.1, notMem_utf8Encode (c := '\n') rfl h.2⟩

theorem oneLine_safeMessage (statusMessage : String) : OneLine (safeMessage statusMessage) := by
  rw [OneLine, safeMessage, String.toList_map]
  simp only [List.mem_map, not_exists, not_and]
  constructor <;>
  · intro c _
    split_ifs with hbreak
    · decide
    · exact fun heq => hbreak (by simp [heq])

/-- Of a number every character is a digit or the like. -/
theorem NumberText.notMem (status : NumberText) {c : Char}
    (hc : "0123456789+-.eNaInfity".toList.contains c = false) : c ∉ status.text.toList := by
  intro hmem
  rw [List.all_eq_true.mp status.chars c hmem] at hc
  cases hc

theorem NumberText.oneLine (status : NumberText) : OneLine status.text :=
  ⟨status.notMem (by decide), status.notMem (by decide)⟩

/-- The status line. -/
def statusLine (status : NumberText) (statusMessage : String) : String :=
  "HTTP/1.1 " ++ status.text ++ " " ++ safeMessage statusMessage

theorem oneLine_statusLine (status : NumberText) (statusMessage : String) :
    OneLine (statusLine status statusMessage) := by
  have hversion : OneLine "HTTP/1.1 " := by simp [OneLine]
  have hspace : OneLine " " := by simp [OneLine]
  exact ((hversion.append status.oneLine).append hspace).append (oneLine_safeMessage statusMessage)

theorem utf8Encode_statusLine (status : NumberText) (statusMessage : String) :
    utf8Encode (statusLine status statusMessage) =
      utf8Encode "HTTP/1.1" ++
        0x20 :: (utf8Encode status.text ++ 0x20 :: utf8Encode (safeMessage statusMessage)) := by
  have hspace : utf8Encode " " = [0x20] := by decide
  have hversion : utf8Encode "HTTP/1.1 " = utf8Encode "HTTP/1.1" ++ [0x20] := by decide
  simp [statusLine, hspace, hversion]

theorem utf8Encode_headerLine_ne_nil (header : String × String) :
    utf8Encode (headerLine header) ≠ [] := by
  have hcolon : utf8Encode ": " = [0x3A, 0x20] := by decide
  simp [headerLine, hcolon]

/-- **A response is its lines**, with a blank one at the end. -/
theorem responseText_eq (status : NumberText) (statusMessage : String) {headers all : Headers}
    (hall : orderKeys (headers.foldl setHeader defaultHeaders) = all) (hne : all ≠ []) :
    responseText status statusMessage headers =
      String.intercalate "\r\n" (statusLine status statusMessage ::
        (all.map headerLine ++ ["", ""])) := by
  have hblank : "\r\n".intercalate ["", ""] = "\r\n" := by decide
  rw [String.intercalate_cons_of_ne_nil (by simp),
    String.intercalate_append_of_ne_nil (by simpa using hne) (by simp), hblank]
  simp [responseText, hall, statusLine, String.append_assoc]

/-- The lines of a head are read back. -/
theorem readHead_intercalate (version status reason : Bytes) (lines : List Bytes)
    (hversion : 0x20 ∉ version) (hstatus : 0x20 ∉ status) (hlines : [] ∉ lines)
    (hunbroken : ∀ line ∈ (version ++ 0x20 :: (status ++ 0x20 :: reason)) :: lines,
      Unbroken 0x0D 0x0A line) :
    let all := (version ++ 0x20 :: (status ++ 0x20 :: reason)) :: (lines ++ [[], []])
    readHead ([0x0D, 0x0A].intercalate all) = some (⟨version, status, reason, lines⟩, [[]]) ∧
      splitLines 0x0D 0x0A ([0x0D, 0x0A].intercalate all) = all := by
  intro all
  have hall : ∀ line ∈ all, Unbroken 0x0D 0x0A line := by
    intro line hline
    have hsplit : line ∈ (version ++ 0x20 :: (status ++ 0x20 :: reason)) :: lines ++ [[], []] := hline
    rcases List.mem_append.mp hsplit with hline | hline
    · exact hunbroken line hline
    · rw [show line = [] by simpa using hline]
      exact unbroken_nil
  have hsplit := splitLines_intercalate (List.cons_ne_nil _ _) hall
  have hfull : ∀ line ∈ lines, decide (line ≠ []) = true := by
    intro line hline
    have hne : line ≠ [] := fun heq => hlines (heq ▸ hline)
    simpa using hne
  have htake : (lines ++ [[], []]).takeWhile (· ≠ []) = lines := by
    rw [List.takeWhile_append_of_pos hfull]
    simp
  have hdrop : (lines ++ [[], []]).dropWhile (· ≠ []) = [[], []] := by
    rw [List.dropWhile_append_of_pos hfull]
    rfl
  refine ⟨?_, hsplit⟩
  simp only [readHead, all, hsplit, cutAt_append hversion, cutAt_append hstatus, htake, hdrop,
    Option.bind_eq_bind, Option.bind_some]
  rfl

/-- **The bytes of a reply are one response head**, whatever the message is. -/
theorem isHead_responseText (status : NumberText) (statusMessage : String) {headers : Headers}
    (hkeys : (headers.map Prod.fst).Nodup)
    (hheaders : ∀ header ∈ headers, OneLine header.1 ∧ OneLine header.2) :
    IsHead status statusMessage (assignable headers)
      (utf8Encode (responseText status statusMessage headers)) := by
  have hdefaults : (defaultHeaders.map Prod.fst).Nodup := by decide
  have hoverrides := (overrides_foldl hdefaults hkeys).perm (orderKeys_perm _)
  generalize hall : orderKeys (headers.foldl setHeader defaultHeaders) = all at hoverrides
  have hsent : ∀ header ∈ all, OneLine header.1 ∧ OneLine header.2 := by
    have hdefault : ∀ header ∈ defaultHeaders, OneLine header.1 ∧ OneLine header.2 := by
      simp [defaultHeaders, OneLine]
    intro header hmem
    exact ((hoverrides.mem_iff header).mp hmem).elim
      (fun h => hheaders header (List.mem_of_mem_filter h)) fun h => hdefault header h.1
  have hline : ∀ header ∈ all, OneLine (headerLine header) := by
    intro header hmem
    have hcolon : OneLine ": " := by simp [OneLine]
    exact ((hsent header hmem).1.append hcolon).append (hsent header hmem).2
  have hne : all ≠ [] := by
    by_cases hextra : assignable headers = []
    · rw [hextra] at hoverrides
      exact List.ne_nil_of_mem ((hoverrides.mem_iff ("Connection", "Close")).mpr
        (Or.inr ⟨List.mem_cons_self, fun _ => List.not_mem_nil⟩))
    · obtain ⟨header, hmem⟩ := List.exists_mem_of_ne_nil _ hextra
      exact List.ne_nil_of_mem ((hoverrides.mem_iff header).mpr (Or.inl hmem))
  have htext : utf8Encode (responseText status statusMessage headers) =
      [0x0D, 0x0A].intercalate (utf8Encode (statusLine status statusMessage) ::
        (all.map (fun header => utf8Encode (headerLine header)) ++ [[], []])) := by
    have hbreak : utf8Encode "\r\n" = [0x0D, 0x0A] := by decide
    have hblank : utf8Encode "" = [] := rfl
    rw [responseText_eq status statusMessage hall hne, utf8Encode_intercalate, hbreak]
    simp [Function.comp_def, hblank]
  have hunbroken : ∀ line ∈ utf8Encode (statusLine status statusMessage) ::
      all.map (fun header => utf8Encode (headerLine header)), Unbroken 0x0D 0x0A line := by
    intro line hmem
    rcases List.mem_cons.mp hmem with rfl | hmem
    · exact (oneLine_statusLine status statusMessage).unbroken
    · obtain ⟨header, hheader, rfl⟩ := List.mem_map.mp hmem
      exact (hline header hheader).unbroken
  have hfull : [] ∉ all.map fun header => utf8Encode (headerLine header) := by
    intro hmem
    obtain ⟨header, -, hnil⟩ := List.mem_map.mp hmem
    exact utf8Encode_headerLine_ne_nil header hnil
  rw [utf8Encode_statusLine] at htext hunbroken
  obtain ⟨hread, hsplit⟩ := readHead_intercalate (utf8Encode "HTTP/1.1") (utf8Encode status.text)
    (utf8Encode (safeMessage statusMessage)) _ (by decide)
    (notMem_utf8Encode (c := ' ') rfl (status.notMem (by decide))) hfull hunbroken
  rw [htext]
  exact ⟨⟨all, hoverrides, hread⟩, by rw [hsplit]⟩

/-- **What is written to a client is one response head**, for every number as its status, with a
line for each header but one of the name `__proto__`; nothing is written to a socket that is
destroyed or ended. -/
theorem writeResponse_isHead (c : Connection) (statusCode : NumberText) (statusMessage : String)
    (headers : Headers) (hkeys : (headers.map Prod.fst).Nodup)
    (hheaders : ∀ header ∈ headers, OneLine header.1 ∧ OneLine header.2) :
    (c.destroyed = true ∨ c.ended = true →
      c.writeResponse statusCode statusMessage headers = c) ∧
    (c.destroyed = false → c.ended = false →
      ∃ text, IsHead statusCode statusMessage (assignable headers) (utf8Encode text) ∧
        c.writeResponse statusCode statusMessage headers =
          { c with responses := c.responses ++ [text] }) := by
  constructor
  · intro hclosed
    exact if_pos (by simpa using hclosed)
  · intro hdestroyed hended
    refine ⟨_, isHead_responseText statusCode statusMessage hkeys hheaders, ?_⟩
    rw [Connection.writeResponse, hdestroyed, hended]
    rfl

/-- A message with two line breaks, a header of the defaults and one that is an array index. -/
theorem writeResponse_isHead_gateway :
    ∃ text, IsHead (.ofNat 502) "bad\r\n\r\ngateway" [("Connection", "close"), ("7", "x")]
        (utf8Encode text) ∧
      ((Connection.accepted []).writeResponse (.ofNat 502) "bad\r\n\r\ngateway"
        [("Connection", "close"), ("7", "x")]).responses = [text] := by
  obtain ⟨text, hhead, hwritten⟩ := (writeResponse_isHead (Connection.accepted []) (.ofNat 502)
    "bad\r\n\r\ngateway" [("Connection", "close"), ("7", "x")] (by decide)
    (by simp [OneLine])).2 rfl rfl
  exact ⟨text, hhead, by rw [hwritten]; rfl⟩

/-- **A header of the name `__proto__` has no line.** -/
theorem not_isHead_proto :
    ∃ text, ((Connection.accepted []).writeResponse (.ofNat 502) "bad gateway"
        [("__proto__", "x")]).responses = [text] ∧
      OneLine "__proto__" ∧ OneLine "x" ∧
      ¬ IsHead (.ofNat 502) "bad gateway" [("__proto__", "x")] (utf8Encode text) := by
  refine ⟨_, rfl, by simp [OneLine], by simp [OneLine], ?_⟩
  intro hhead
  obtain ⟨headers, hoverrides, hread⟩ := hhead.read
  have hmem : utf8Encode "__proto__: x" ∈
      headers.map fun header => utf8Encode (header.1 ++ ": " ++ header.2) :=
    List.mem_map_of_mem ((hoverrides.mem_iff ("__proto__", "x")).mpr (Or.inl List.mem_cons_self))
  have hlines : ∀ response rest, readHead (utf8Encode (responseText (.ofNat 502) "bad gateway"
      [("__proto__", "x")])) = some (response, rest) →
        utf8Encode "__proto__: x" ∉ response.headerLines := by
    have hsent : (readHead (utf8Encode (responseText (.ofNat 502) "bad gateway"
        [("__proto__", "x")]))).all fun read =>
          !(read.1.headerLines.contains (utf8Encode "__proto__: x")) := by
      decide +kernel
    intro response rest hresponse hline
    rw [hresponse] at hsent
    simp [hline] at hsent
  exact hlines _ _ hread hmem

end Proxinator.Forward
