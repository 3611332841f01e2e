import Proxinator.Sni
import Proxinator.Lib.Segment

/-!
# Reassembly over an arbitrary framing

`reassemble` states what `readHandshake` does without its offsets: it joins record
fragments to the bytes collected so far until they hold the whole message, and the
length of the message is a function of the collected bytes. `readHandshake_eq` is
the simulation: the source's loop, at any offset, is `reassemble` on the bytes
behind that offset.

Two facts about one record carry everything: a record that can be read is read the
same way when more bytes follow (`nextRecord_append`), and a proper prefix of a
record is not read at all (`nextRecord_truncated`).

## Main results

* `readHandshake_append` — a run that does not ask for more data never changes.
* `reassemble_records` — over a framing, the point where it completes.
* `reassembly_point` — both, about `isComplete`, `readHandshake` and `parseSNI`.
-/

namespace Proxinator.Sni

open Lib

/-! ## One record at a time -/

/-- What the reader finds at the front of the bytes it has not read yet. -/
inductive NextRecord
  /-- The record has not arrived completely. -/
  | more
  /-- The bytes are not a handshake record. -/
  | bad (e : SniError)
  /-- A record with this fragment, and the bytes behind it. -/
  | record (fragment rest : Bytes)
  deriving DecidableEq, Repr

/-- Read one record off the front. -/
def nextRecord (rest : Bytes) : NextRecord :=
  if recordHeaderSize > rest.length then .more
  else if rest[0]? ≠ some contentTypeHandshake then
    .bad (.error "Not a TLS handshake record")
  else
    match readUInt16BE rest 3 with
    | none => .bad .range
    | some length =>
      if length = 0 then .bad (.error "Empty TLS handshake record")
      else if recordHeaderSize + length > rest.length then .more
      else .record (subarray rest recordHeaderSize (recordHeaderSize + length))
        (rest.drop (recordHeaderSize + length))

/-- Everything a successful read says about the bytes. -/
theorem nextRecord_eq_record {rest fragment rest' : Bytes}
    (h : nextRecord rest = .record fragment rest') :
    recordHeaderSize ≤ rest.length ∧ rest[0]? = some contentTypeHandshake ∧
      readUInt16BE rest 3 = some fragment.length ∧ fragment.length ≠ 0 ∧
      recordHeaderSize + fragment.length ≤ rest.length ∧
      fragment = subarray rest recordHeaderSize (recordHeaderSize + fragment.length) ∧
      rest' = rest.drop (recordHeaderSize + fragment.length) := by
  unfold nextRecord at h
  split at h
  · cases h
  · rename_i hlen
    split at h
    · cases h
    · rename_i htype
      split at h
      · cases h
      · rename_i length hread
        split at h
        · cases h
        · rename_i hzero
          split at h
          · cases h
          · rename_i hfit
            simp only [NextRecord.record.injEq] at h
            obtain ⟨rfl, rfl⟩ := h
            have hl : (subarray rest recordHeaderSize (recordHeaderSize + length)).length
                = length := by simp only [length_subarray]; omega
            rw [hl]
            exact ⟨by omega, by simpa using htype, hread, hzero, by omega, rfl, rfl⟩

theorem nextRecord_of_read {rest : Bytes} {length : ℕ}
    (htype : rest[0]? = some contentTypeHandshake) (hread : readUInt16BE rest 3 = some length)
    (hzero : length ≠ 0) (hfit : recordHeaderSize + length ≤ rest.length) :
    nextRecord rest = .record (subarray rest recordHeaderSize (recordHeaderSize + length))
      (rest.drop (recordHeaderSize + length)) := by
  unfold nextRecord
  rw [if_neg (by omega), if_neg (by simp [htype]), hread]
  simp only
  rw [if_neg hzero, if_neg (by omega)]

/-- **A record that can be read is read the same way when more bytes follow.** -/
theorem nextRecord_append {rest fragment rest' : Bytes}
    (h : nextRecord rest = .record fragment rest') (s : Bytes) :
    nextRecord (rest ++ s) = .record fragment (rest' ++ s) := by
  obtain ⟨hlen, htype, hread, hzero, hfit, hfrag, hrest⟩ := nextRecord_eq_record h
  simp only [recordHeaderSize] at hlen
  have htype' : (rest ++ s)[0]? = some contentTypeHandshake := by
    rw [List.getElem?_append_left (by omega), htype]
  have hread' : readUInt16BE (rest ++ s) 3 = some fragment.length := by
    rw [readUInt16BE, readUIntBE_append (by omega)]; exact hread
  rw [nextRecord_of_read htype' hread' hzero (by simp only [List.length_append]; omega),
    subarray_append hfit, ← hfrag, List.drop_append_of_le_length hfit, ← hrest]

/-- Bytes that are no handshake record do not become one. -/
theorem nextRecord_bad_append {rest : Bytes} {e : SniError} (h : nextRecord rest = .bad e)
    (s : Bytes) : nextRecord (rest ++ s) = .bad e := by
  unfold nextRecord at h ⊢
  split at h
  · cases h
  · rename_i hlen
    simp only [recordHeaderSize] at hlen
    have h0 : (rest ++ s)[0]? = rest[0]? := List.getElem?_append_left (by omega)
    have hread : readUInt16BE (rest ++ s) 3 = readUInt16BE rest 3 :=
      readUIntBE_append (by omega) s
    rw [if_neg (by simp only [recordHeaderSize, List.length_append]; omega), h0, hread]
    split at h
    · rename_i htype; rw [if_pos htype]; exact h
    · rename_i htype
      rw [if_neg htype]
      split at h
      · exact h
      · split at h
        · rename_i hzero; simp only [hzero, if_true]; exact h
        · split at h <;> cases h

/-! ## The message in the collected bytes -/

/-- Header and body length of the handshake message that the collected bytes begin,
once they hold its header. -/
def messageLength (collected : Bytes) : Option ℕ :=
  if handshakeHeaderSize ≤ collected.length then
    (readUIntBE collected 1 3).map (handshakeHeaderSize + ·)
  else none

/-- A whole handshake message: its uint24 length field counts the bytes behind the
4-byte header. -/
def IsMessage (m : Bytes) : Prop := messageLength m = some m.length

instance (m : Bytes) : Decidable (IsMessage m) := inferInstanceAs (Decidable (_ = _))

theorem messageLength_append {b : Bytes} (h : handshakeHeaderSize ≤ b.length) (s : Bytes) :
    messageLength (b ++ s) = messageLength b := by
  simp only [handshakeHeaderSize] at h
  rw [messageLength, messageLength, if_pos (by simp; omega), if_pos h,
    readUIntBE_append (by omega)]

/-- A message is at least its header. -/
theorem IsMessage.header_le {m : Bytes} (h : IsMessage m) : handshakeHeaderSize ≤ m.length := by
  unfold IsMessage messageLength at h
  split at h
  · assumption
  · cases h

/-- While the collected bytes are a proper prefix of a message, they show either no
length yet or the length of that message. -/
theorem IsMessage.all_lt {m c : Bytes} (h : IsMessage m) (hc : c <+: m)
    (hlt : c.length < m.length) : (messageLength c).all (c.length < ·) = true := by
  obtain ⟨t, rfl⟩ := hc
  by_cases h4 : handshakeHeaderSize ≤ c.length
  · rw [← messageLength_append h4 t, h]
    simpa using hlt
  · rw [messageLength, if_neg h4]
    rfl

/-- Once they hold the whole message, they show its length. -/
theorem IsMessage.eq_some {m c : Bytes} (h : IsMessage m) (hc : m <+: c) :
    messageLength c = some m.length := by
  obtain ⟨t, rfl⟩ := hc
  rw [messageLength_append h.header_le, h]

/-! ## Reassembly without offsets -/

/-- Join fragments to `collected` until it holds the whole message. -/
def reassemble (collected rest : Bytes) : Except SniError Handshake :=
  if (messageLength collected).all (collected.length < ·) then
    match _h : nextRecord rest with
    | .more => .ok .incomplete
    | .bad e => .error e
    | .record fragment rest' => reassemble (collected ++ fragment) rest'
  else .ok ⟨true, some (collected.take ((messageLength collected).getD 0))⟩
  termination_by rest.length
  decreasing_by
    obtain ⟨hlen, -, -, -, -, -, rfl⟩ := nextRecord_eq_record _h
    simp only [recordHeaderSize, List.length_drop] at *
    omega

theorem reassemble_more {c rest : Bytes} (hc : (messageLength c).all (c.length < ·) = true)
    (h : nextRecord rest = .more) : reassemble c rest = .ok .incomplete := by
  rw [reassemble, if_pos hc]
  split <;> simp_all

theorem reassemble_bad {c rest : Bytes} {e : SniError}
    (hc : (messageLength c).all (c.length < ·) = true) (h : nextRecord rest = .bad e) :
    reassemble c rest = .error e := by
  rw [reassemble, if_pos hc]
  split <;> simp_all

theorem reassemble_record {c rest fragment rest' : Bytes}
    (hc : (messageLength c).all (c.length < ·) = true)
    (h : nextRecord rest = .record fragment rest') :
    reassemble c rest = reassemble (c ++ fragment) rest' := by
  rw [reassemble, if_pos hc]
  split <;> simp_all

theorem reassemble_done {c : Bytes} (hc : (messageLength c).all (c.length < ·) = false)
    (rest : Bytes) :
    reassemble c rest = .ok ⟨true, some (c.take ((messageLength c).getD 0))⟩ := by
  rw [reassemble, if_neg (by simp [hc])]

/-! ## The loop of the source -/

/-- Pushing a fragment keeps `total` the length that the joined fragments show. -/
theorem nextTotal_eq (fragments : List Bytes) (fragment : Bytes) :
    nextTotal (fragments ++ [fragment]) (fragments.flatten.length + fragment.length)
        (messageLength fragments.flatten) =
      .ok (messageLength (fragments ++ [fragment]).flatten) := by
  have hjoin : (fragments ++ [fragment]).flatten = fragments.flatten ++ fragment := by simp
  have hread : ∀ c : Bytes, handshakeHeaderSize ≤ c.length →
      ∃ length, readUIntBE c 1 3 = some length := by
    intro c hc
    exact Option.isSome_iff_exists.mp
      ((isSome_readUIntBE c 1 3).mpr (Or.inr (by simp only [handshakeHeaderSize] at hc; omega)))
  rw [hjoin, nextTotal]
  by_cases hold : handshakeHeaderSize ≤ fragments.flatten.length
  · obtain ⟨length, hlength⟩ := hread _ hold
    rw [messageLength_append hold, messageLength, if_pos hold, hlength]
    simp [pure, Except.pure]
  · have hnone : messageLength fragments.flatten = none := by rw [messageLength, if_neg hold]
    rw [hnone]
    by_cases hnew : handshakeHeaderSize ≤ (fragments.flatten ++ fragment).length
    · obtain ⟨length, hlength⟩ := hread _ hnew
      rw [messageLength, if_pos hnew, hjoin, hlength,
        if_pos ⟨rfl, by simpa only [List.length_append] using hnew⟩]
      rfl
    · rw [messageLength, if_neg hnew,
        if_neg (by simpa only [List.length_append, true_and] using hnew)]
      rfl

/-- **The loop simulates `reassemble`.** At every offset it continues with what lies
behind it, `collected` is the size of the fragments and `total` the length they show. -/
theorem readHandshakeLoop_eq (buf : Bytes) (fragments : List Bytes) (offset : ℕ)
    (hoffset : offset ≤ buf.length) :
    readHandshakeLoop buf fragments offset fragments.flatten.length
        (messageLength fragments.flatten) =
      reassemble fragments.flatten (buf.drop offset) := by
  induction hn : buf.length - offset using Nat.strong_induction_on
    generalizing fragments offset with
  | _ n ih =>
    rw [readHandshakeLoop]
    cases hall : (messageLength fragments.flatten).all (fragments.flatten.length < ·) with
    | false =>
        rw [if_neg (by simp), reassemble_done hall]
        simp [subarray]
    | true =>
        rw [if_pos rfl]
        have hlen : (buf.drop offset).length = buf.length - offset := List.length_drop
        have hfirst : (buf.drop offset)[0]? = buf[offset]? := by simp
        have hread : readUInt16BE (buf.drop offset) 3 = readUInt16BE buf (offset + 3) :=
          readUIntBE_drop buf offset 3 2
        by_cases hheader : offset + recordHeaderSize > buf.length
        · rw [if_pos hheader, reassemble_more hall]
          rw [nextRecord, if_pos (by omega)]
        rw [if_neg hheader]
        by_cases htype : buf[offset]? ≠ some contentTypeHandshake
        · rw [if_pos htype, reassemble_bad hall]
          rw [nextRecord, if_neg (by omega), hfirst, if_pos htype]
        rw [if_neg htype]
        obtain ⟨length, hlength⟩ : ∃ length, readUInt16BE buf (offset + 3) = some length :=
          Option.isSome_iff_exists.mp ((isSome_readUIntBE buf (offset + 3) 2).mpr
            (Or.inr (by simp only [recordHeaderSize] at hheader; omega)))
        rw [hlength]
        simp only
        by_cases hzero : length = 0
        · rw [if_pos hzero, reassemble_bad hall]
          rw [nextRecord, if_neg (by omega), hfirst, if_neg htype, hread, hlength]
          simp [hzero]
        rw [if_neg hzero]
        by_cases hfit : offset + recordHeaderSize + length > buf.length
        · rw [if_pos hfit, reassemble_more hall]
          rw [nextRecord, if_neg (by omega), hfirst, if_neg htype, hread, hlength]
          simp only
          rw [if_neg hzero, if_pos (by omega)]
        rw [if_neg hfit]
        have hrecord := nextRecord_of_read (hfirst.trans (by simpa using htype))
          (hread.trans hlength) hzero (by omega)
        rw [subarray_drop, List.drop_drop, ← Nat.add_assoc] at hrecord
        rw [reassemble_record hall hrecord]
        set fragment := subarray buf (offset + recordHeaderSize)
          (offset + recordHeaderSize + length)
        have hsize : fragment.length = length := by
          simp only [fragment, length_subarray]; omega
        have hnext := nextTotal_eq fragments fragment
        rw [hsize] at hnext
        rw [hnext]
        simp only
        have hrest := ih (buf.length - (offset + recordHeaderSize + length)) (by omega)
          (fragments ++ [fragment]) (offset + recordHeaderSize + length) (by omega) rfl
        have hjoin : (fragments ++ [fragment]).flatten = fragments.flatten ++ fragment := by simp
        rw [hjoin, List.length_append, hsize] at hrest
        rw [hjoin, hrest]

/-- `readHandshake` is `reassemble` from nothing collected. -/
theorem readHandshake_eq (buf : Bytes) : readHandshake buf = reassemble [] buf := by
  simpa [readHandshake, messageLength] using readHandshakeLoop_eq buf [] 0 (Nat.zero_le _)

/-! ## Runs that do not ask for more data -/

/-- Bytes behind the last record it reads do not change a finished run. -/
theorem reassemble_append (collected rest s : Bytes)
    (h : reassemble collected rest ≠ .ok .incomplete) :
    reassemble collected (rest ++ s) = reassemble collected rest := by
  induction hn : rest.length using Nat.strong_induction_on generalizing collected rest with
  | _ n ih =>
    cases hall : (messageLength collected).all (collected.length < ·) with
    | false => rw [reassemble_done hall, reassemble_done hall]
    | true =>
        cases hnext : nextRecord rest with
        | more => exact absurd (reassemble_more hall hnext) h
        | bad e =>
            rw [reassemble_bad hall hnext, reassemble_bad hall (nextRecord_bad_append hnext s)]
        | record fragment rest' =>
            have hlt : rest'.length < n := by
              obtain ⟨hlen, -, -, -, -, -, rfl⟩ := nextRecord_eq_record hnext
              simp only [recordHeaderSize, List.length_drop] at *
              omega
            rw [reassemble_record hall hnext] at h ⊢
            rw [reassemble_record hall (nextRecord_append hnext s)]
            exact ih _ hlt _ _ h rfl

/-- **A run of `readHandshake` that does not ask for more data never changes.** -/
theorem readHandshake_append {b : Bytes} (h : readHandshake b ≠ .ok .incomplete) (s : Bytes) :
    readHandshake (b ++ s) = readHandshake b := by
  rw [readHandshake_eq] at h ⊢
  rw [readHandshake_eq, reassemble_append _ _ _ h]

/-- The loop returns `complete = false` in one way only. -/
theorem reassemble_complete {collected rest : Bytes} {handshake : Handshake}
    (h : reassemble collected rest = .ok handshake) (hc : handshake.complete = false) :
    handshake = .incomplete := by
  induction hn : rest.length using Nat.strong_induction_on generalizing collected rest with
  | _ n ih =>
    cases hall : (messageLength collected).all (collected.length < ·) with
    | false =>
        rw [reassemble_done hall, Except.ok.injEq] at h
        subst h
        cases hc
    | true =>
        cases hnext : nextRecord rest with
        | more =>
            rw [reassemble_more hall hnext, Except.ok.injEq] at h
            exact h.symm
        | bad e => rw [reassemble_bad hall hnext] at h; cases h
        | record fragment rest' =>
            have hlt : rest'.length < n := by
              obtain ⟨hlen, -, -, -, -, -, rfl⟩ := nextRecord_eq_record hnext
              simp only [recordHeaderSize, List.length_drop] at *
              omega
            rw [reassemble_record hall hnext] at h
            exact ih _ hlt h rfl

theorem isComplete_iff (b : Bytes) : isComplete b = true ↔ readHandshake b ≠ .ok .incomplete := by
  unfold isComplete
  cases hread : readHandshake b with
  | error e => simp
  | ok handshake =>
      simp only [ne_eq, Except.ok.injEq]
      constructor
      · rintro hc rfl; cases hc
      · intro hne
        by_contra hc
        rw [readHandshake_eq] at hread
        exact hne (reassemble_complete hread (by simpa using hc))

/-- Completeness is not undone by more bytes. -/
theorem isComplete_append {b : Bytes} (h : isComplete b = true) (s : Bytes) :
    isComplete (b ++ s) = true := by
  rw [isComplete_iff] at h ⊢
  rwa [readHandshake_append h s]

/-- The hostname of complete bytes is not changed by more bytes. -/
theorem parseSNI_append {b : Bytes} (h : isComplete b = true) (s : Bytes) :
    parseSNI (b ++ s) = parseSNI b := by
  rw [isComplete_iff] at h
  simp only [parseSNI, readHandshake_append h s]

/-! ## Framings -/

/-- A TLS handshake record: any protocol version and 1 to 65535 bytes. -/
structure Record where
  version : UInt8 × UInt8
  fragment : Bytes
  nonempty : fragment ≠ []
  fits : fragment.length < 256 ^ 2

/-- The record on the wire. -/
def Record.encode (r : Record) : Bytes :=
  contentTypeHandshake :: r.version.1 :: r.version.2 :: prefixed 2 r.fragment

/-- A framing on the wire. -/
def encodeRecords (records : List Record) : Bytes := records.flatMap Record.encode

/-- The byte string that a framing carries. -/
def payload (records : List Record) : Bytes := records.flatMap Record.fragment

/-- The offset at which the record that holds byte number `n` of the payload ends. -/
def endOffset : ℕ → List Record → ℕ
  | _, [] => 0
  | n, r :: rs =>
      if n ≤ r.fragment.length then r.encode.length
      else r.encode.length + endOffset (n - r.fragment.length) rs

@[simp] theorem Record.length_encode (r : Record) :
    r.encode.length = recordHeaderSize + r.fragment.length := by
  simp [Record.encode]; omega

/-- A record is read off the front of whatever follows it. -/
theorem nextRecord_encode (r : Record) (s : Bytes) :
    nextRecord (r.encode ++ s) = .record r.fragment s := by
  have hread : readUInt16BE (r.encode ++ s) 3 = some r.fragment.length := by
    rw [show r.encode ++ s = [contentTypeHandshake, r.version.1, r.version.2] ++
      (uintBE 2 r.fragment.length ++ (r.fragment ++ s)) by simp [Record.encode, prefixed]]
    exact readUIntBE_uintBE _ _ r.fits rfl
  rw [nextRecord_of_read rfl hread (by simpa using r.nonempty)
    (by rw [List.length_append, r.length_encode]; omega)]
  congr 1
  · rw [show r.encode ++ s = ([contentTypeHandshake, r.version.1, r.version.2] ++
      uintBE 2 r.fragment.length) ++ (r.fragment ++ s) by simp [Record.encode, prefixed]]
    exact subarray_field _ _ _ (by simp) rfl
  · rw [← r.length_encode, List.drop_left]

/-- **A proper prefix of a record is not read.** -/
theorem nextRecord_truncated (r : Record) {p : Bytes} (hp : p <+: r.encode)
    (hlt : p.length < r.encode.length) : nextRecord p = .more := by
  obtain ⟨t, ht⟩ := hp
  cases hnext : nextRecord p with
  | more => rfl
  | bad e =>
      -- a record would have to be bad itself
      have hbad := nextRecord_bad_append hnext t
      rw [ht, ← List.append_nil r.encode, nextRecord_encode] at hbad
      cases hbad
  | record fragment rest' =>
      have hrec := nextRecord_append hnext t
      rw [ht, ← List.append_nil r.encode, nextRecord_encode] at hrec
      simp only [NextRecord.record.injEq] at hrec
      obtain ⟨-, -, -, -, hfit, -, -⟩ := nextRecord_eq_record hnext
      rw [r.length_encode, hrec.1] at hlt
      omega

/-- **Where reassembly completes.** With `collected` a proper prefix of the message,
it asks for more data on every prefix of the framing that is shorter than the end of
the record with the message's last byte, and from there on returns the message. The
induction is on the records still to come. -/
theorem reassemble_records {m : Bytes} (hm : IsMessage m) (records : List Record)
    (collected : Bytes) (hlt : collected.length < m.length)
    (hpay : m <+: collected ++ payload records) {p : Bytes} (hp : p <+: encodeRecords records) :
    (p.length < endOffset (m.length - collected.length) records →
      reassemble collected p = .ok .incomplete) ∧
    (endOffset (m.length - collected.length) records ≤ p.length → ∀ tail,
      reassemble collected (p ++ tail) = .ok ⟨true, some m⟩) := by
  induction records generalizing collected p with
  | nil =>
      have := hpay.length_le
      simp [payload] at this
      omega
  | cons r rs ih =>
      have hall := hm.all_lt (List.prefix_of_prefix_length_le
        (List.prefix_append collected _) hpay (le_of_lt hlt)) hlt
      have hpay' : m <+: (collected ++ r.fragment) ++ payload rs := by
        simpa [payload] using hpay
      obtain ⟨hshort, hlong⟩ := prefix_append_cases (a := r.encode) (b := encodeRecords rs)
        (by simpa [encodeRecords] using hp)
      have hmore : p.length < r.encode.length → reassemble collected p = .ok .incomplete :=
        fun h => reassemble_more hall (nextRecord_truncated r (hshort h) h)
      by_cases hlast : m.length - collected.length ≤ r.fragment.length
      · -- this record holds the last byte
        rw [endOffset, if_pos hlast]
        refine ⟨hmore, ?_⟩
        intro hle tail
        obtain ⟨q, rfl, -⟩ := hlong hle
        rw [List.append_assoc, reassemble_record hall (nextRecord_encode r _)]
        have hwhole : m <+: collected ++ r.fragment :=
          List.prefix_of_prefix_length_le hpay' (List.prefix_append _ _)
            (by rw [List.length_append]; omega)
        have htotal := hm.eq_some hwhole
        rw [reassemble_done (by rw [htotal]; simpa using hwhole.length_le), htotal,
          Option.getD_some, ← List.prefix_iff_eq_take.mp hwhole]
      · -- the message goes on in the next record
        rw [endOffset, if_neg hlast]
        have hlt' : (collected ++ r.fragment).length < m.length := by
          rw [List.length_append]; omega
        have hleft : m.length - collected.length - r.fragment.length =
            m.length - (collected ++ r.fragment).length := by
          rw [List.length_append]; omega
        rw [hleft]
        constructor
        · intro hend
          by_cases h : p.length < r.encode.length
          · exact hmore h
          obtain ⟨q, rfl, hq⟩ := hlong (Nat.le_of_not_lt h)
          have hsize : (r.encode ++ q).length = r.encode.length + q.length := List.length_append
          rw [reassemble_record hall (nextRecord_encode r q)]
          exact (ih _ hlt' hpay' hq).1 (by omega)
        · intro hend tail
          obtain ⟨q, rfl, hq⟩ := hlong (by omega)
          have hsize : (r.encode ++ q).length = r.encode.length + q.length := List.length_append
          rw [List.append_assoc, reassemble_record hall (nextRecord_encode r _)]
          exact (ih _ hlt' hpay' hq).2 (by omega) tail

/-- `reassemble_records` about `readHandshake`: nothing has been collected yet. -/
theorem readHandshake_records {m : Bytes} (hm : IsMessage m) {records : List Record}
    (hpay : m <+: payload records) {p : Bytes} (hp : p <+: encodeRecords records) :
    (p.length < endOffset m.length records → readHandshake p = .ok .incomplete) ∧
    (endOffset m.length records ≤ p.length → ∀ tail,
      readHandshake (p ++ tail) = .ok ⟨true, some m⟩) := by
  have hpos : ([] : Bytes).length < m.length := by
    have := hm.header_le
    simp only [handshakeHeaderSize] at this
    simp only [List.length_nil]
    omega
  simpa only [readHandshake_eq, List.length_nil, Nat.sub_zero] using
    reassemble_records hm records [] hpos (by simpa using hpay) hp

/-- A framing of exactly the message completes at its end. -/
theorem endOffset_payload (records : List Record) :
    endOffset (payload records).length records = (encodeRecords records).length := by
  induction records with
  | nil => rfl
  | cons r rs ih =>
      have hpay : (payload (r :: rs)).length = r.fragment.length + (payload rs).length := by
        simp [payload]
      have henc : (encodeRecords (r :: rs)).length =
          r.encode.length + (encodeRecords rs).length := by
        simp [encodeRecords]
      rw [hpay, henc, endOffset, Nat.add_sub_cancel_left, ih]
      split
      · rename_i hle
        cases rs with
        | nil => rfl
        | cons r' rs' =>
            have hpos := List.length_pos_of_ne_nil r'.nonempty
            have hmore : (payload (r' :: rs')).length =
                r'.fragment.length + (payload rs').length := by simp [payload]
            omega
      · rfl

/-- **Reassembly becomes complete at exactly one point and never changes
afterwards.** Over every framing that carries the message and perhaps more, every
prefix that ends before the record with the message's last byte is incomplete, and
every longer one, whatever follows it, yields the message. On arbitrary bytes,
malformed ones included, completeness and the hostname are final. -/
theorem reassembly_point :
    (∀ (records : List Record) (m : Bytes), IsMessage m → m <+: payload records →
      ∀ p, p <+: encodeRecords records →
        (p.length < endOffset m.length records → isComplete p = false) ∧
        (endOffset m.length records ≤ p.length → ∀ tail,
          readHandshake (p ++ tail) = .ok ⟨true, some m⟩)) ∧
    (∀ b s, isComplete b = true →
      isComplete (b ++ s) = true ∧ parseSNI (b ++ s) = parseSNI b) := by
  constructor
  · intro records m hm hpay p hp
    constructor
    · intro hlt
      rw [isComplete, (readHandshake_records hm hpay hp).1 hlt]
      rfl
    · exact (readHandshake_records hm hpay hp).2
  · intro b s h
    exact ⟨isComplete_append h s, parseSNI_append h s⟩

/-- A message cut inside its header, in a framing that carries one byte more. -/
theorem reassembly_point_two_records :
    isComplete [22, 3, 1, 0, 2, 1, 0, 22, 3, 1, 0, 4, 0, 1, 7] = false ∧
    readHandshake [22, 3, 1, 0, 2, 1, 0, 22, 3, 1, 0, 4, 0, 1, 7, 9, 0x17] =
      .ok ⟨true, some [1, 0, 0, 1, 7]⟩ ∧
    parseSNI [22, 3, 1, 0, 0, 5, 6] = parseSNI [22, 3, 1, 0, 0] := by
  let records : List Record :=
    [⟨(3, 1), [1, 0], by decide, by decide⟩, ⟨(3, 1), [0, 1, 7, 9], by decide, by decide⟩]
  refine ⟨?_, ?_, ?_⟩
  · exact ((reassembly_point.1 records [1, 0, 0, 1, 7] (by decide) (by decide)
      _ (by decide)).1 (by decide))
  · exact ((reassembly_point.1 records [1, 0, 0, 1, 7] (by decide) (by decide)
      (encodeRecords records) List.prefix_rfl).2 (by decide) [0x17])
  · exact (reassembly_point.2 [22, 3, 1, 0, 0] [5, 6] (by decide +kernel)).2

end Proxinator.Sni
