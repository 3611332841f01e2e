import Proxinator.Sni.Reassembly
import Mathlib.Logic.Relation

/-!
# The bytes that a hostname is made of

Five length fields lie around a hostname: that of the extensions block, of the `server_name`
extension, of its list, of the entry and of the handshake message itself. Each may say too
much or too little. `Location` has the offsets of these parts, cut off where the part around
them ends; `Location.Holds` says that they are where the walk of the parser finds them, and
`Location.Holds.nested` that each lies inside the next.

## Main results

* `serverNameListLoop_sound`, `extensionsLoop_sound` — what the two loops return comes from the
  first entry, or extension, of its kind.
* `parseSNI_contained` — a hostname is a slice of the handshake message, at such a location, and
  depends on nothing else.
-/

namespace Proxinator.Sni

open Lib Relation

/-! ## The walk -/

/-- At `offset` there is an entry of another name type, and the next one is at `next`. -/
def OtherName (data : Bytes) (stop offset next : ℕ) : Prop :=
  offset + 3 ≤ stop ∧ data[offset]? ≠ some nameTypeHostName ∧
    ∃ length, readUInt16BE data (offset + 1) = some length ∧ next = offset + 3 + length ∧
      next ≤ stop

/-- At `offset` there is an extension of another type, and the next one is at `next`. -/
def OtherExtension (message : Bytes) (stop offset next : ℕ) : Prop :=
  offset + 4 ≤ stop ∧
    ∃ type length, readUInt16BE message offset = some type ∧ type ≠ extensionServerName ∧
      readUInt16BE message (offset + 2) = some length ∧ next = offset + 4 + length

/-- `offset` is behind the fields in front of the extensions block. -/
def BehindFields (message : Bytes) (offset : ℕ) : Prop :=
  ∃ sessionId cipherSuites compressionMethods,
    readUInt8 message 38 = some sessionId ∧
      readUInt16BE message (38 + (1 + sessionId)) = some cipherSuites ∧
      readUInt8 message (38 + (1 + sessionId) + (2 + cipherSuites)) = some compressionMethods ∧
      offset = 38 + (1 + sessionId) + (2 + cipherSuites) + (1 + compressionMethods)

/-- **The first host_name entry of a list** is what the loop returns, in its whole length. -/
theorem serverNameListLoop_sound {data : Bytes} {stop offset : ℕ} {h : String}
    (hloop : serverNameListLoop data stop offset = .ok (some h)) :
    ∃ entry length, ReflTransGen (OtherName data stop) offset entry ∧
      data[entry]? = some nameTypeHostName ∧ readUInt16BE data (entry + 1) = some length ∧
      entry + 3 + length ≤ stop ∧
      h = utf8Decode (subarray data (entry + 3) (entry + 3 + length)) := by
  fun_induction serverNameListLoop data stop offset with
  | case1 offset hroom hread => cases hloop
  | case2 offset hroom length hread start hover => cases hloop
  | case3 offset hroom length hread start hfits htype =>
      obtain rfl := (Option.some.inj (Except.ok.inj hloop)).symm
      exact ⟨offset, length, .refl, htype, hread, by omega, rfl⟩
  | case4 offset hroom length hread start hfits htype ih =>
      obtain ⟨entry, length', hwalk, hentry⟩ := ih hloop
      have hother : OtherName data stop offset (start + length) :=
        ⟨hroom, htype, length, hread, rfl, by omega⟩
      exact ⟨entry, length', .head hother hwalk, hentry⟩
  | case5 offset hroom => cases hloop

/-- **The first server_name extension** is what the loop searches. -/
theorem extensionsLoop_sound {message : Bytes} {stop offset : ℕ} {h : String}
    (hloop : extensionsLoop message stop offset = .ok (some h)) :
    ∃ extension length, ReflTransGen (OtherExtension message stop) offset extension ∧
      extension + 4 ≤ stop ∧ readUInt16BE message extension = some extensionServerName ∧
      readUInt16BE message (extension + 2) = some length ∧
      parseServerNameList (subarray message (extension + 4) (min (extension + 4 + length) stop)) =
        .ok (some h) := by
  fun_induction extensionsLoop message stop offset with
  | case1 offset hroom length hlength start htype =>
      exact ⟨offset, length, .refl, hroom, htype, hlength, hloop⟩
  | case2 offset hroom type length hlength htype start hserverName ih =>
      obtain ⟨extension, length', hwalk, hextension⟩ := ih hloop
      have hother : OtherExtension message stop offset (start + length) :=
        ⟨hroom, type, length, htype, hserverName, hlength, rfl⟩
      exact ⟨extension, length', .head hother hwalk, hextension⟩
  | case3 offset hroom hread => cases hloop
  | case4 offset hroom => cases hloop

theorem ofRead_bind_eq_ok {α β : Type} {read : Option α} {f : α → Except SniError β} {b : β} :
    (ofRead read >>= f) = .ok b ↔ ∃ a, read = some a ∧ f a = .ok b := by
  cases read with
  | none =>
      constructor
      · rintro ⟨⟩
      · rintro ⟨a, ⟨⟩, -⟩
  | some a =>
      constructor
      · intro h
        exact ⟨a, rfl, h⟩
      · rintro ⟨_, ⟨⟩, h⟩
        exact h

/-- The fields in front of the extensions block are read, and the block is walked. -/
theorem parseClientHello_sound {message : Bytes} {h : String}
    (hparse : parseClientHello message = .ok (some h)) :
    message[0]? = some handshakeClientHello ∧
      ∃ block declared, BehindFields message block ∧
        readUInt16BE message block = some declared ∧
        extensionsLoop message (min (block + 2 + declared) message.length) (block + 2) =
          .ok (some h) := by
  rw [parseClientHello] at hparse
  split_ifs at hparse with htype
  · cases hparse
  · simp only [ofRead_bind_eq_ok] at hparse
    obtain ⟨sessionId, hsessionId, cipherSuites, hcipherSuites, compressionMethods,
      hcompressionMethods, hparse⟩ := hparse
    split_ifs at hparse with hroom
    · cases hparse
    · rw [ofRead_bind_eq_ok] at hparse
      obtain ⟨declared, hdeclared, hloop⟩ := hparse
      refine ⟨by simpa using htype, _, declared, ?_, hdeclared, hloop⟩
      exact ⟨sessionId, cipherSuites, compressionMethods, hsessionId, hcipherSuites,
        hcompressionMethods, rfl⟩

/-! ## Locations -/

/-- Where the parts of a handshake message lie around a hostname: the offsets of the extensions
block, of the `server_name` extension in it and of the entry in the list of that, and where each
of them ends. -/
structure Location where
  block : ℕ
  blockEnd : ℕ
  extension : ℕ
  extensionEnd : ℕ
  listEnd : ℕ
  entry : ℕ
  stop : ℕ

/-- The first byte of the hostname. -/
def Location.start (l : Location) : ℕ := l.entry + 3

/-- **The hostname stands there, and the walk leads there.** -/
structure Location.Holds (m : Bytes) (h : String) (l : Location) : Prop where
  clientHello : m[0]? = some handshakeClientHello
  block : BehindFields m l.block
  /-- The extensions block ends with its declared length, or with the message. -/
  blockEnd : ∃ declared, readUInt16BE m l.block = some declared ∧
    l.blockEnd = min (l.block + 2 + declared) m.length
  /-- The extension is the first server_name extension, -/
  first_extension : ReflTransGen (OtherExtension m l.blockEnd) (l.block + 2) l.extension
  serverName : readUInt16BE m l.extension = some extensionServerName
  /-- which ends with its declared length, or with the block. -/
  extensionEnd : ∃ declared, readUInt16BE m (l.extension + 2) = some declared ∧
    l.extensionEnd = min (l.extension + 4 + declared) l.blockEnd
  /-- Its list ends with its declared length, or with the extension. -/
  listEnd : ∃ declared, readUInt16BE m (l.extension + 4) = some declared ∧
    l.listEnd = min (l.extension + 6 + declared) l.extensionEnd
  /-- The entry is the first host_name entry, -/
  first_entry : ReflTransGen (OtherName m l.listEnd) (l.extension + 6) l.entry
  hostName : m[l.entry]? = some nameTypeHostName
  /-- and it lies in the list in its whole declared length. -/
  length : ∃ declared, readUInt16BE m (l.entry + 1) = some declared ∧ l.stop = l.start + declared
  stop_le : l.stop ≤ l.listEnd
  host : h = utf8Decode (subarray m l.start l.stop)

/-- **Each part lies inside the one around it.** -/
theorem Location.Holds.nested {m : Bytes} {h : String} {l : Location} (hl : l.Holds m h) :
    l.start ≤ l.stop ∧ l.stop ≤ l.listEnd ∧ l.listEnd ≤ l.extensionEnd ∧
      l.extensionEnd ≤ l.blockEnd ∧ l.blockEnd ≤ m.length := by
  obtain ⟨declared, -, hstop⟩ := hl.length
  obtain ⟨listLength, -, hlist⟩ := hl.listEnd
  obtain ⟨extensionLength, -, hextension⟩ := hl.extensionEnd
  obtain ⟨blockLength, -, hblock⟩ := hl.blockEnd
  have hinside := hl.stop_le
  omega

/-- A step through the list of an extension, with the offsets of the message. -/
theorem otherName_subarray {m : Bytes} {start stop listEnd offset next : ℕ}
    (h : OtherName (subarray m start stop) listEnd offset next) (hend : start + listEnd ≤ stop) :
    OtherName m (start + listEnd) (start + offset) (start + next) := by
  obtain ⟨hroom, htype, length, hlength, hnext, hinside⟩ := h
  rw [getElem?_subarray, if_pos (by omega)] at htype
  have hread := readUInt16BE_subarray hlength
  rw [← Nat.add_assoc] at hread
  exact ⟨by omega, htype, length, hread, by omega, by omega⟩

theorem parseServerNameList_sound {data : Bytes} {h : String}
    (hlist : parseServerNameList data = .ok (some h)) :
    ∃ declared, readUInt16BE data 0 = some declared ∧
      serverNameListLoop data (min (2 + declared) data.length) 2 = .ok (some h) := by
  rwa [parseServerNameList, ofRead_bind_eq_ok] at hlist

/-- **What the walk of a ClientHello returns stands at a location of the message.** -/
theorem parseClientHello_location {m : Bytes} {h : String}
    (hparse : parseClientHello m = .ok (some h)) : ∃ l : Location, l.Holds m h := by
  obtain ⟨hclientHello, block, blockLength, hblock, hblockLength, hloop⟩ :=
    parseClientHello_sound hparse
  obtain ⟨extension, length, hextension, hroom, hserverName, hlength, hlist⟩ :=
    extensionsLoop_sound hloop
  obtain ⟨listLength, hlistLength, hlistLoop⟩ := parseServerNameList_sound hlist
  obtain ⟨entry, nameLength, hentry, hhostName, hnameLength, hinside, hhost⟩ :=
    serverNameListLoop_sound hlistLoop
  obtain ⟨blockEnd, hblockEnd⟩ : ∃ e, e = min (block + 2 + blockLength) m.length := ⟨_, rfl⟩
  obtain ⟨extensionEnd, hextensionEnd⟩ : ∃ e, e = min (extension + 4 + length) blockEnd :=
    ⟨_, rfl⟩
  rw [← hblockEnd] at hextension hroom
  rw [← hblockEnd, ← hextensionEnd] at hlistLength hentry hhostName hnameLength hinside hhost
  -- the extension lies in the message, so its data is as long as its end says
  have hdata : (subarray m (extension + 4) extensionEnd).length =
      extensionEnd - (extension + 4) := by
    rw [length_subarray]
    omega
  rw [hdata] at hentry hinside
  obtain ⟨listEnd, hlistEnd⟩ :
      ∃ e, e = min (2 + listLength) (extensionEnd - (extension + 4)) := ⟨_, rfl⟩
  rw [← hlistEnd] at hentry hinside
  have hinside' : extension + 4 + listEnd ≤ extensionEnd := by omega
  have hwalk := hentry.lift (extension + 4 + ·) fun _ _ h => otherName_subarray h hinside'
  rw [getElem?_subarray, if_pos (by omega)] at hhostName
  rw [subarray_subarray _ _ (by omega)] at hhost
  have hlistRead := readUInt16BE_subarray hlistLength
  have hnameRead := readUInt16BE_subarray hnameLength
  rw [← Nat.add_assoc] at hnameRead
  refine ⟨⟨block, blockEnd, extension, extensionEnd, extension + 4 + listEnd,
    extension + 4 + entry, extension + 4 + (entry + 3 + nameLength)⟩, ?_⟩
  exact
    { clientHello := hclientHello
      block := hblock
      blockEnd := ⟨blockLength, hblockLength, hblockEnd⟩
      first_extension := hextension
      serverName := hserverName
      extensionEnd := ⟨length, hlength, hextensionEnd⟩
      listEnd := ⟨listLength, hlistRead, by simp only; omega⟩
      first_entry := hwalk
      hostName := hhostName
      length := ⟨nameLength, hnameRead, by simp only [Location.start]; omega⟩
      stop_le := by simp only; omega
      host := hhost }

/-! ## The message -/

/-- **The bytes begin with records that carry the message.** -/
def Reassembled (b m : Bytes) : Prop :=
  IsMessage m ∧ ∃ (records : List Record) (rest : Bytes),
    b = encodeRecords records ++ rest ∧ m <+: payload records

theorem endOffset_le (n : ℕ) (records : List Record) :
    endOffset n records ≤ (encodeRecords records).length := by
  induction records generalizing n with
  | nil => exact Nat.le_refl 0
  | cons r rs ih =>
      have hlength : (encodeRecords (r :: rs)).length =
          r.encode.length + (encodeRecords rs).length := by
        simp [encodeRecords]
      rw [endOffset, hlength]
      split_ifs
      · omega
      · have hrest := ih (n - r.fragment.length)
        omega

/-- A record that is read stands in front of what is left. -/
theorem nextRecord_sound {rest fragment rest' : Bytes}
    (h : nextRecord rest = .record fragment rest') :
    ∃ r : Record, r.fragment = fragment ∧ rest = r.encode ++ rest' := by
  obtain ⟨hlen, htype, hread, hzero, -, hfragment, rfl⟩ := nextRecord_eq_record h
  obtain ⟨hlength, hfits⟩ := uintBE_of_readUIntBE hread
  match rest, hlen with
  | a :: b :: c :: tail, _ =>
    obtain rfl : a = contentTypeHandshake := by simpa using htype
    have hnonempty : fragment ≠ [] := by
      rintro rfl
      exact hzero rfl
    refine ⟨⟨(b, c), fragment, hnonempty, hfits⟩, rfl, ?_⟩
    have hbehind : tail = uintBE 2 fragment.length ++ fragment ++
        tail.drop (2 + fragment.length) := by
      have hprefix : uintBE 2 fragment.length = tail.take 2 := hlength
      have hbody : fragment = (tail.drop 2).take fragment.length := by
        rw [subarray, Nat.add_sub_cancel_left] at hfragment
        exact hfragment
      calc tail = tail.take 2 ++ ((tail.drop 2).take fragment.length ++
              (tail.drop 2).drop fragment.length) := by
            rw [List.take_append_drop, List.take_append_drop]
        _ = _ := by rw [← hbody, ← hprefix, List.drop_drop, List.append_assoc]
    have hdrop : (contentTypeHandshake :: b :: c :: tail).drop
        (recordHeaderSize + fragment.length) = tail.drop (2 + fragment.length) := by
      rw [show recordHeaderSize + fragment.length = 2 + fragment.length + 3 by
        simp only [recordHeaderSize]; omega]
      rfl
    rw [hdrop, Record.encode, prefixed, List.cons_append, List.cons_append, List.cons_append,
      ← hbehind]

/-- Once the collected bytes hold a whole message, what is cut off them is one. -/
theorem isMessage_take {c : Bytes} (h : (messageLength c).all (c.length < ·) = false) :
    IsMessage (c.take ((messageLength c).getD 0)) := by
  cases hlength : messageLength c with
  | none => simp [hlength] at h
  | some n =>
      have hle : n ≤ c.length := by simpa [hlength] using h
      have hheader : handshakeHeaderSize ≤ n := by
        rw [messageLength] at hlength
        split_ifs at hlength
        obtain ⟨body, -, rfl⟩ := Option.map_eq_some_iff.mp hlength
        omega
      have htake : (c.take n).length = n := by simp [hle]
      have hcut := messageLength_append (b := c.take n) (by omega) (c.drop n)
      rw [List.take_append_drop, hlength] at hcut
      simpa only [Option.getD_some, IsMessage, htake] using hcut.symm

/-- **What `reassemble` returns is carried by the records in front.** -/
theorem reassemble_sound {collected rest m : Bytes}
    (h : reassemble collected rest = .ok ⟨true, some m⟩) :
    IsMessage m ∧ ∃ (records : List Record) (rest' : Bytes),
      rest = encodeRecords records ++ rest' ∧ m <+: collected ++ payload records := by
  fun_induction reassemble collected rest with
  | case1 collected rest hall hnext => cases h
  | case2 collected rest hall e hnext => cases h
  | case3 collected rest hall fragment rest' hnext ih =>
      obtain ⟨hm, records, rest'', rfl, hpay⟩ := ih h
      obtain ⟨r, rfl, rfl⟩ := nextRecord_sound hnext
      refine ⟨hm, r :: records, rest'', ?_, ?_⟩
      · simp [encodeRecords]
      · simpa [payload] using hpay
  | case4 collected rest hall =>
      obtain rfl : m = collected.take ((messageLength collected).getD 0) := by
        simpa using h.symm
      refine ⟨isMessage_take (by simpa using hall), [], rest, rfl, ?_⟩
      exact (List.take_prefix _ _).trans (List.prefix_append _ _)

/-- **What `readHandshake` returns is the message that the bytes carry.** -/
theorem readHandshake_eq_ok (b m : Bytes) :
    readHandshake b = .ok ⟨true, some m⟩ ↔ Reassembled b m := by
  constructor
  · intro h
    rw [readHandshake_eq] at h
    exact reassemble_sound h
  · rintro ⟨hm, records, rest, rfl, hpay⟩
    exact (readHandshake_records hm hpay List.prefix_rfl).2 (endOffset_le _ _) rest

/-! ## The result -/

/-- What `parseSNI` returns is what the walk of the reassembled message does. -/
theorem parseSNI_eq_some {b : Bytes} {h : String} :
    parseSNI b = some h ↔
      ∃ m, readHandshake b = .ok ⟨true, some m⟩ ∧ parseClientHello m = .ok (some h) := by
  constructor
  · intro hb
    rw [parseSNI] at hb
    split at hb
    next m hread =>
      split at hb
      next hostname hparse => exact ⟨m, hread, by rw [hparse, hb]⟩
      next => cases hb
    next => cases hb
  · rintro ⟨m, hread, hparse⟩
    rw [parseSNI, hread]
    simp only [hparse]

/-- **A hostname is a slice of the handshake message.** Whatever the length fields say, it stands
in the whole length of the first host_name entry of the first `server_name` extension, inside
its list, the extension, the extensions block and the message; and any other bytes that carry
the same message give the same hostname. (`parseSNI` itself is total: it catches what is thrown
by a read.) -/
theorem parseSNI_contained {b : Bytes} {h : String} (hb : parseSNI b = some h) :
    ∃ (m : Bytes) (l : Location),
      readHandshake b = .ok ⟨true, some m⟩ ∧ Reassembled b m ∧ l.Holds m h ∧
        (l.start ≤ l.stop ∧ l.stop ≤ l.listEnd ∧ l.listEnd ≤ l.extensionEnd ∧
          l.extensionEnd ≤ l.blockEnd ∧ l.blockEnd ≤ m.length) ∧
        ∀ b', Reassembled b' m → parseSNI b' = some h := by
  obtain ⟨m, hread, hparse⟩ := parseSNI_eq_some.mp hb
  obtain ⟨l, hl⟩ := parseClientHello_location hparse
  refine ⟨m, l, hread, (readHandshake_eq_ok b m).mp hread, hl, hl.nested, ?_⟩
  intro b' hb'
  exact parseSNI_eq_some.mpr ⟨m, (readHandshake_eq_ok b' m).mpr hb', hparse⟩

/-- A hello whose extensions block, extension and list all claim 99 bytes. -/
def overlong : Bytes :=
  [1, 0, 0, 51, 3, 3] ++ List.replicate 32 7 ++
    [0, 0, 0, 0, 0, 99, 0, 0, 0, 99, 0, 99, 0, 0, 2, 97, 98]

theorem parseClientHello_overlong : parseClientHello overlong = .ok (some "ab") := by
  have hname : serverNameListLoop [0, 99, 0, 0, 2, 97, 98] 7 2 =
      .ok (some (utf8Decode [97, 98])) := by
    have hlength : readUInt16BE [0, 99, 0, 0, 2, 97, 98] (2 + 1) = some 2 := by decide
    have hslice : subarray [0, 99, 0, 0, 2, 97, 98] (2 + 3) (2 + 3 + 2) = [97, 98] := by decide
    rw [serverNameListLoop, if_pos (by omega), hlength]
    simp only [hslice]
    rfl
  have hextensions : extensionsLoop overlong 55 44 = .ok (some (utf8Decode [97, 98])) := by
    have htype : readUInt16BE overlong 44 = some 0 := by decide
    have hlength : readUInt16BE overlong (44 + 2) = some 99 := by decide
    have hdata : subarray overlong (44 + 4) (min (44 + 4 + 99) 55) =
        [0, 99, 0, 0, 2, 97, 98] := by
      decide
    rw [extensionsLoop, if_pos (by omega), htype, hlength]
    have hlist : readUInt16BE [0, 99, 0, 0, 2, 97, 98] 0 = some 99 := by decide
    simp only [hdata, if_true]
    rw [parseServerNameList, hlist]
    exact hname
  have hdecode : utf8Decode [97, 98] = "ab" := utf8Decode_utf8Encode "ab"
  have hsessionId : readUInt8 overlong 38 = some 0 := by decide
  have hcipherSuites : readUInt16BE overlong 39 = some 0 := by decide
  have hcompressionMethods : readUInt8 overlong 41 = some 0 := by decide
  have hblock : readUInt16BE overlong 42 = some 99 := by decide
  rw [parseClientHello, if_neg (by decide)]
  simp only [ofRead_bind_eq_ok, ← hdecode]
  refine ⟨0, hsessionId, 0, hcipherSuites, 0, hcompressionMethods, ?_⟩
  rw [if_neg (by decide), ofRead_bind_eq_ok]
  exact ⟨99, hblock, hextensions⟩

/-- Its hostname is found all the same. -/
theorem parseSNI_contained_overlong :
    ∃ (m : Bytes) (l : Location),
      readHandshake ([22, 3, 1, 0, 55] ++ overlong) = .ok ⟨true, some m⟩ ∧
        Reassembled ([22, 3, 1, 0, 55] ++ overlong) m ∧ l.Holds m "ab" ∧
        (l.start ≤ l.stop ∧ l.stop ≤ l.listEnd ∧ l.listEnd ≤ l.extensionEnd ∧
          l.extensionEnd ≤ l.blockEnd ∧ l.blockEnd ≤ m.length) ∧
        ∀ b', Reassembled b' m → parseSNI b' = some "ab" := by
  have hm : Reassembled ([22, 3, 1, 0, 55] ++ overlong) overlong :=
    ⟨by decide, [⟨(3, 1), overlong, by decide, by decide⟩], [], by decide, by decide⟩
  have hread := (readHandshake_eq_ok _ _).mpr hm
  exact parseSNI_contained (parseSNI_eq_some.mpr ⟨overlong, hread, parseClientHello_overlong⟩)

end Proxinator.Sni
