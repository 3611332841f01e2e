import Proxinator.Sni.Reassembly

/-!
# Decoding an encoded ClientHello

The encoders of the nested format: names in a `server_name` list, extensions, the
ClientHello body and its handshake message. Every structure carries the bounds that
its length fields put on it, so each value has an encoding.

Each loop of the parser has a lemma for an entry it steps over and one for the entry
it stops at. An entry is described by what stands before and behind it, so the same
lemmas serve every list. `parseSNI_encode` puts them under an arbitrary framing.
-/

namespace Proxinator.Sni

open Lib

/-! ## The format -/

/-- An entry of a server_name list. -/
structure ServerName where
  nameType : UInt8
  name : Bytes
  fits : name.length < 256 ^ 2

/-- The entry on the wire. -/
def ServerName.encode (n : ServerName) : Bytes := n.nameType :: prefixed 2 n.name

/-- The body of a server_name extension. -/
def encodeServerNameList (names : List ServerName) : Bytes :=
  prefixed 2 (names.flatMap ServerName.encode)

/-- A hello extension. -/
structure Extension where
  type : ℕ
  data : Bytes
  type_lt : type < 256 ^ 2
  fits : data.length < 256 ^ 2

/-- The extension on the wire. -/
def Extension.encode (e : Extension) : Bytes := uintBE 2 e.type ++ prefixed 2 e.data

/-- Consecutive extensions. -/
def encodeExtensions (es : List Extension) : Bytes := es.flatMap Extension.encode

/-- A ClientHello; `extensions = none` is a hello without an extensions block. -/
structure ClientHello where
  clientVersion : Bytes
  random : Bytes
  sessionId : Bytes
  cipherSuites : Bytes
  compressionMethods : Bytes
  extensions : Option (List Extension)
  clientVersion_length : clientVersion.length = 2
  random_length : random.length = 32
  sessionId_fits : sessionId.length < 256 ^ 1
  cipherSuites_fits : cipherSuites.length < 256 ^ 2
  compressionMethods_fits : compressionMethods.length < 256 ^ 1
  extensions_fit : ∀ es ∈ extensions, (encodeExtensions es).length < 256 ^ 2

namespace ClientHello

/-- The extensions block. -/
def extensionsBlock (hello : ClientHello) : Bytes :=
  match hello.extensions with
  | none => []
  | some es => prefixed 2 (encodeExtensions es)

/-- The hello behind its handshake header. -/
def body (hello : ClientHello) : Bytes :=
  hello.clientVersion ++ (hello.random ++ (prefixed 1 hello.sessionId ++
    (prefixed 2 hello.cipherSuites ++ (prefixed 1 hello.compressionMethods ++
      hello.extensionsBlock))))

/-- The handshake message. -/
def message (hello : ClientHello) : Bytes := handshakeClientHello :: prefixed 3 hello.body

/-- The first server_name extension carries a list whose first host_name entry is
the UTF-8 encoding of `h`. -/
def CarriesHost (hello : ClientHello) (h : String) : Prop :=
  ∃ before sni after others entry more,
    hello.extensions = some (before ++ sni :: after) ∧
    (∀ e ∈ before, e.type ≠ extensionServerName) ∧ sni.type = extensionServerName ∧
    sni.data = encodeServerNameList (others ++ entry :: more) ∧
    (∀ n ∈ others, n.nameType ≠ nameTypeHostName) ∧ entry.nameType = nameTypeHostName ∧
    entry.name = utf8Encode h

/-- No extension is a server_name extension. -/
def NoServerName (hello : ClientHello) : Prop :=
  ∀ es ∈ hello.extensions, ∀ e ∈ es, e.type ≠ extensionServerName

end ClientHello

/-! ## The server_name list -/

@[simp] theorem ServerName.length_encode (n : ServerName) :
    n.encode.length = 3 + n.name.length := by
  simp [ServerName.encode]; omega

private theorem ServerName.read_length (n : ServerName) (pre post : Bytes) :
    readUInt16BE (pre ++ (n.encode ++ post)) (pre.length + 1) = some n.name.length := by
  rw [show pre ++ (n.encode ++ post) = (pre ++ [n.nameType]) ++ (prefixed 2 n.name ++ post) by
    simp [ServerName.encode]]
  exact readUIntBE_prefixed _ _ n.fits (by simp)

private theorem ServerName.read_type (n : ServerName) (pre post : Bytes) :
    (pre ++ (n.encode ++ post))[pre.length]? = some n.nameType := by
  simp [ServerName.encode]

/-- An entry of another name type is stepped over. -/
theorem serverNameListLoop_skip (n : ServerName) (pre post : Bytes) {stop : ℕ}
    (hn : n.nameType ≠ nameTypeHostName) (hstop : pre.length + n.encode.length ≤ stop) :
    serverNameListLoop (pre ++ (n.encode ++ post)) stop pre.length =
      serverNameListLoop (pre ++ (n.encode ++ post)) stop (pre ++ n.encode).length := by
  rw [n.length_encode] at hstop
  rw [serverNameListLoop, if_pos (by omega), n.read_length]
  simp only
  rw [if_neg (by omega), n.read_type, if_neg (by simpa using hn), List.length_append,
    n.length_encode, Nat.add_assoc]

/-- A host_name entry is the result. -/
theorem serverNameListLoop_host (n : ServerName) (pre post : Bytes) {stop : ℕ}
    (hn : n.nameType = nameTypeHostName) (hstop : pre.length + n.encode.length ≤ stop) :
    serverNameListLoop (pre ++ (n.encode ++ post)) stop pre.length =
      .ok (some (utf8Decode n.name)) := by
  rw [n.length_encode] at hstop
  rw [serverNameListLoop, if_pos (by omega), n.read_length]
  simp only
  rw [if_neg (by omega), n.read_type, if_pos (by rw [hn])]
  rw [show pre ++ (n.encode ++ post) = (pre ++ [n.nameType]) ++ (prefixed 2 n.name ++ post) by
    simp [ServerName.encode], subarray_prefixed _ _ _ (by simp) rfl]

/-- The walk through a list whose first host_name entry is `entry`; the induction is
on the entries before it. -/
theorem serverNameListLoop_list (others : List ServerName) (entry : ServerName)
    (more : List ServerName) (hothers : ∀ n ∈ others, n.nameType ≠ nameTypeHostName)
    (hentry : entry.nameType = nameTypeHostName) (pre : Bytes) :
    serverNameListLoop (pre ++ (others ++ entry :: more).flatMap ServerName.encode)
        (pre ++ (others ++ entry :: more).flatMap ServerName.encode).length pre.length =
      .ok (some (utf8Decode entry.name)) := by
  induction others generalizing pre with
  | nil =>
      simp only [List.nil_append, List.flatMap_cons]
      exact serverNameListLoop_host entry pre _ hentry (by simp only [List.length_append]; omega)
  | cons n others ih =>
      simp only [List.cons_append, List.flatMap_cons]
      rw [serverNameListLoop_skip n pre _ (hothers n List.mem_cons_self)
        (by simp only [List.length_append]; omega), ← List.append_assoc]
      exact ih (fun m hm => hothers m (List.mem_cons_of_mem n hm)) (pre ++ n.encode)

theorem parseServerNameList_encode (others : List ServerName) (entry : ServerName)
    (more : List ServerName) (hothers : ∀ n ∈ others, n.nameType ≠ nameTypeHostName)
    (hentry : entry.nameType = nameTypeHostName)
    (hfit : (encodeServerNameList (others ++ entry :: more)).length < 256 ^ 2) :
    parseServerNameList (encodeServerNameList (others ++ entry :: more)) =
      .ok (some (utf8Decode entry.name)) := by
  set names := others ++ entry :: more
  rw [encodeServerNameList, length_prefixed] at hfit
  have hsize : (names.flatMap ServerName.encode).length < 256 ^ 2 := by omega
  have hread : readUInt16BE (encodeServerNameList names) 0 =
      some (names.flatMap ServerName.encode).length := by
    have h := readUIntBE_prefixed [] [] hsize rfl
    rwa [List.nil_append, List.append_nil] at h
  have hstop : min (2 + (names.flatMap ServerName.encode).length)
      (encodeServerNameList names).length = (encodeServerNameList names).length := by
    simp [encodeServerNameList]
  rw [parseServerNameList, hread]
  simp only [ofRead_some, bind, Except.bind]
  rw [hstop, encodeServerNameList, prefixed]
  have hlist := serverNameListLoop_list others entry more hothers hentry
    (uintBE 2 (names.flatMap ServerName.encode).length)
  rwa [length_uintBE] at hlist

/-! ## The extensions block -/

@[simp] theorem Extension.length_encode (e : Extension) :
    e.encode.length = 4 + e.data.length := by
  simp [Extension.encode]; omega

private theorem Extension.read_type (e : Extension) (pre post : Bytes) :
    readUInt16BE (pre ++ (e.encode ++ post)) pre.length = some e.type := by
  rw [Extension.encode, List.append_assoc]
  exact readUIntBE_uintBE _ _ e.type_lt rfl

private theorem Extension.read_length (e : Extension) (pre post : Bytes) :
    readUInt16BE (pre ++ (e.encode ++ post)) (pre.length + 2) = some e.data.length := by
  rw [Extension.encode, List.append_assoc, ← List.append_assoc pre]
  exact readUIntBE_prefixed _ _ e.fits (by simp)

/-- Another extension is stepped over. -/
theorem extensionsLoop_skip (e : Extension) (pre post : Bytes) {stop : ℕ}
    (he : e.type ≠ extensionServerName) (hstop : pre.length + e.encode.length ≤ stop) :
    extensionsLoop (pre ++ (e.encode ++ post)) stop pre.length =
      extensionsLoop (pre ++ (e.encode ++ post)) stop (pre ++ e.encode).length := by
  rw [e.length_encode] at hstop
  rw [extensionsLoop, if_pos (by omega), e.read_type, e.read_length]
  simp only
  rw [if_neg he, List.length_append, e.length_encode, Nat.add_assoc]

/-- A server_name extension is searched for its host_name. -/
theorem extensionsLoop_serverName (e : Extension) (pre post : Bytes) {stop : ℕ}
    (he : e.type = extensionServerName) (hstop : pre.length + e.encode.length ≤ stop) :
    extensionsLoop (pre ++ (e.encode ++ post)) stop pre.length = parseServerNameList e.data := by
  rw [e.length_encode] at hstop
  rw [extensionsLoop, if_pos (by omega), e.read_type, e.read_length]
  simp only
  rw [if_pos he, min_eq_left (by omega), Extension.encode, List.append_assoc,
    ← List.append_assoc pre, subarray_prefixed _ _ _ (by simp) rfl]

/-- The walk to the first server_name extension; the induction is on the extensions
before it. -/
theorem extensionsLoop_first (before : List Extension) (sni : Extension)
    (after : List Extension) (hbefore : ∀ e ∈ before, e.type ≠ extensionServerName)
    (hsni : sni.type = extensionServerName) (pre : Bytes) :
    extensionsLoop (pre ++ encodeExtensions (before ++ sni :: after))
        (pre ++ encodeExtensions (before ++ sni :: after)).length pre.length =
      parseServerNameList sni.data := by
  induction before generalizing pre with
  | nil =>
      simp only [encodeExtensions, List.nil_append, List.flatMap_cons]
      exact extensionsLoop_serverName sni pre _ hsni (by simp only [List.length_append]; omega)
  | cons e before ih =>
      simp only [encodeExtensions, List.cons_append, List.flatMap_cons] at ih ⊢
      rw [extensionsLoop_skip e pre _ (hbefore e List.mem_cons_self)
        (by simp only [List.length_append]; omega), ← List.append_assoc]
      exact ih (fun e' he' => hbefore e' (List.mem_cons_of_mem e he')) (pre ++ e.encode)

/-- A block without a server_name extension is walked to its end. -/
theorem extensionsLoop_none (es : List Extension)
    (hes : ∀ e ∈ es, e.type ≠ extensionServerName) (pre : Bytes) :
    extensionsLoop (pre ++ encodeExtensions es) (pre ++ encodeExtensions es).length pre.length =
      .ok none := by
  induction es generalizing pre with
  | nil =>
      rw [extensionsLoop, if_neg (by simp [encodeExtensions])]
  | cons e es ih =>
      simp only [encodeExtensions, List.flatMap_cons] at ih ⊢
      rw [extensionsLoop_skip e pre _ (hes e List.mem_cons_self)
        (by simp only [List.length_append]; omega), ← List.append_assoc]
      exact ih (fun e' he' => hes e' (List.mem_cons_of_mem e he')) (pre ++ e.encode)

/-! ## The hello -/

namespace ClientHello

variable (hello : ClientHello)

/-- Everything in front of the extensions block. -/
private def front : Bytes :=
  handshakeClientHello :: (uintBE 3 hello.body.length ++ (hello.clientVersion ++
    (hello.random ++ (prefixed 1 hello.sessionId ++ (prefixed 2 hello.cipherSuites ++
      prefixed 1 hello.compressionMethods)))))

private theorem message_eq : hello.message = hello.front ++ hello.extensionsBlock := by
  simp [message, front, body, prefixed]

private theorem length_front :
    hello.front.length = handshakeHeaderSize + 2 + 32 + (1 + hello.sessionId.length) +
      (2 + hello.cipherSuites.length) + (1 + hello.compressionMethods.length) := by
  simp [front, hello.clientVersion_length, hello.random_length]
  omega

/-- The message shows its own length. -/
theorem isMessage : IsMessage hello.message := by
  have hblock : hello.extensionsBlock.length ≤ 2 + 256 ^ 2 := by
    unfold extensionsBlock
    split
    · simp
    · rename_i es hes
      have := hello.extensions_fit es hes
      rw [length_prefixed]
      omega
  have hbody : hello.body.length < 256 ^ 3 := by
    have h1 := hello.sessionId_fits
    have h2 := hello.cipherSuites_fits
    have h3 := hello.compressionMethods_fits
    simp only [body, List.length_append, length_prefixed, hello.clientVersion_length,
      hello.random_length]
    omega
  have hread : readUIntBE hello.message 1 3 = some hello.body.length := by
    have h := readUIntBE_prefixed [handshakeClientHello] [] hbody rfl
    rwa [List.append_nil] at h
  have hlen : hello.message.length = handshakeHeaderSize + hello.body.length := by
    simp [message]; omega
  rw [IsMessage, messageLength, if_pos (by omega), hread, hlen]
  rfl

/-- The length fields in front of the extensions block, read where the parser reads
them. -/
private theorem read_front :
    readUInt8 hello.message (handshakeHeaderSize + 2 + 32) = some hello.sessionId.length ∧
    readUInt16BE hello.message (handshakeHeaderSize + 2 + 32 + (1 + hello.sessionId.length)) =
      some hello.cipherSuites.length ∧
    readUInt8 hello.message (handshakeHeaderSize + 2 + 32 + (1 + hello.sessionId.length) +
      (2 + hello.cipherSuites.length)) = some hello.compressionMethods.length := by
  let pre := handshakeClientHello :: (uintBE 3 hello.body.length ++ (hello.clientVersion ++
    hello.random))
  have hpre : pre.length = handshakeHeaderSize + 2 + 32 := by
    simp [pre, hello.clientVersion_length, hello.random_length]
  refine ⟨?_, ?_, ?_⟩
  · rw [show hello.message = pre ++ (prefixed 1 hello.sessionId ++
      (prefixed 2 hello.cipherSuites ++ (prefixed 1 hello.compressionMethods ++
        hello.extensionsBlock))) by simp [message_eq, front, pre]]
    exact readUIntBE_prefixed _ _ hello.sessionId_fits hpre.symm
  · rw [show hello.message = (pre ++ prefixed 1 hello.sessionId) ++
      (prefixed 2 hello.cipherSuites ++ (prefixed 1 hello.compressionMethods ++
        hello.extensionsBlock)) by simp [message_eq, front, pre]]
    exact readUIntBE_prefixed _ _ hello.cipherSuites_fits
      (by rw [List.length_append, hpre, length_prefixed])
  · rw [show hello.message = (pre ++ prefixed 1 hello.sessionId ++
      prefixed 2 hello.cipherSuites) ++ (prefixed 1 hello.compressionMethods ++
        hello.extensionsBlock) by simp [message_eq, front, pre]]
    exact readUIntBE_prefixed _ _ hello.compressionMethods_fits
      (by simp only [List.length_append, hpre, length_prefixed])

/-- The fields in front of the extensions block are stepped over. -/
theorem parseClientHello_message :
    parseClientHello hello.message =
      match hello.extensions with
      | none => .ok none
      | some es =>
        let pre := hello.front ++ uintBE 2 (encodeExtensions es).length
        extensionsLoop (pre ++ encodeExtensions es) (pre ++ encodeExtensions es).length
          pre.length := by
  obtain ⟨hsession, hciphers, hcompression⟩ := hello.read_front
  rw [parseClientHello, if_neg (by simp [message])]
  simp only [hsession, hciphers, hcompression, ofRead_some, bind, Except.bind]
  rw [← length_front]
  cases hes : hello.extensions with
  | none =>
      have hlen : hello.message.length = hello.front.length := by
        rw [message_eq, extensionsBlock, hes]
        simp
      rw [if_pos (by omega)]
  | some es =>
      have hmessage : hello.message = hello.front ++ prefixed 2 (encodeExtensions es) := by
        rw [message_eq, extensionsBlock, hes]
      have hlen : hello.message.length =
          hello.front.length + 2 + (encodeExtensions es).length := by
        rw [hmessage, List.length_append, length_prefixed, Nat.add_assoc]
      have hread : readUInt16BE hello.message hello.front.length =
          some (encodeExtensions es).length := by
        have h := readUIntBE_prefixed hello.front [] (hello.extensions_fit es hes) rfl
        rwa [List.append_nil, ← hmessage] at h
      rw [if_neg (by omega), hread]
      simp only [ofRead_some]
      rw [hlen, min_self, hmessage, prefixed, ← List.append_assoc]
      simp only [List.length_append, length_uintBE]

end ClientHello

/-- Whatever the hello is, under a framing of its message `parseSNI` is what the walk
through that message finds. -/
theorem parseSNI_records (hello : ClientHello) {records : List Record}
    (hpay : payload records = hello.message) (tail : Bytes) {hostname : Option String}
    (h : parseClientHello hello.message = .ok hostname) :
    parseSNI (encodeRecords records ++ tail) = hostname := by
  have hread := (readHandshake_records hello.isMessage ⟨[], by rw [List.append_nil, hpay]⟩
    List.prefix_rfl).2 (by rw [← hpay, endOffset_payload]) tail
  rw [parseSNI, hread]
  simp only [h]

/-- **`parseSNI` decodes every ClientHello under every record framing.** -/
theorem parseSNI_encode (hello : ClientHello) (records : List Record)
    (hpay : payload records = hello.message) (tail : Bytes) :
    (∀ h, hello.CarriesHost h → parseSNI (encodeRecords records ++ tail) = some h) ∧
    (hello.NoServerName → parseSNI (encodeRecords records ++ tail) = none) := by
  constructor
  · rintro h ⟨before, sni, after, others, entry, more, hes, hbefore, hsni, hdata, hothers,
      hentry, hname⟩
    apply parseSNI_records hello hpay
    rw [hello.parseClientHello_message, hes]
    simp only
    rw [extensionsLoop_first before sni after hbefore hsni, hdata,
      parseServerNameList_encode others entry more hothers hentry (hdata ▸ sni.fits), hname,
      utf8Decode_utf8Encode]
  · intro hno
    apply parseSNI_records hello hpay
    rw [hello.parseClientHello_message]
    cases hes : hello.extensions with
    | none => rfl
    | some es => exact extensionsLoop_none es (hno es hes) _

/-- A hello cut inside its handshake header, whose list has an entry of another name
type in front of the host name; and a hello without an extensions block. -/
theorem parseSNI_encode_two_hellos :
    parseSNI ([22, 3, 1, 0, 2, 1, 0] ++ ([22, 3, 1, 0, 61, 0, 59, 3, 3] ++
      List.replicate 32 7 ++ [0, 0, 0, 0, 0, 19, 0, 21, 0, 0, 0, 0, 0, 11, 0, 9, 1, 0, 1, 5,
        0, 0, 2, 97, 98]) ++ [9, 9]) = some "ab" ∧
    parseSNI ([22, 3, 1, 0, 42, 1, 0, 0, 38, 3, 3] ++ List.replicate 32 7 ++
      [0, 0, 0, 0]) = none := by
  let padding : Extension := ⟨21, [], by decide, by decide⟩
  let other : ServerName := ⟨1, [5], by decide⟩
  let entry : ServerName := ⟨0, [97, 98], by decide⟩
  let sni : Extension := ⟨0, encodeServerNameList [other, entry], by decide, by decide⟩
  let hello : ClientHello := ⟨[3, 3], List.replicate 32 7, [], [], [], some [padding, sni],
    by decide, by decide, by decide, by decide, by decide, by simp; decide⟩
  let bare : ClientHello := ⟨[3, 3], List.replicate 32 7, [], [], [], none,
    by decide, by decide, by decide, by decide, by decide, by simp⟩
  let records : List Record := [⟨(3, 1), [1, 0], by decide, by decide⟩,
    ⟨(3, 1), hello.message.drop 2, by decide, by decide⟩]
  let record : Record := ⟨(3, 1), bare.message, by decide, by decide⟩
  have hhost := (parseSNI_encode hello records (by decide) [9, 9]).1 "ab"
    ⟨[padding], sni, [], [other], entry, [], rfl, by decide, rfl, rfl, by decide, rfl,
      by decide⟩
  have hnone := (parseSNI_encode bare [record] (by decide) []).2
    (by simp [ClientHello.NoServerName, bare])
  constructor
  · exact (congrArg parseSNI (by decide)).trans hhost
  · exact (congrArg parseSNI (by decide)).trans hnone

end Proxinator.Sni
