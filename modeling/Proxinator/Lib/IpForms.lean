import Proxinator.Lib.IpText
import Mathlib.Tactic.IntervalCases

/-!
# Other forms of IP addresses

An address as its bytes, and the text that `inet_ntop` makes of an IPv6 address. That text
leaves out the first longest run of zeros as `Ipv6.toText` does. If all is zero before the
last two pieces, or before a piece `ffff` in front of them, it writes those two as an IPv4
address.

## Main results

* `Ip.bytes_of_ofBytes`, `parseIp_toText` — an address from its bytes, and from its text.
* `parseIpv6_ntop` — an IPv6 address from what `inet_ntop` makes of it.
* `ntop_begins_iff` — for which addresses that begins with `::ffff:`.
-/

namespace Proxinator.Lib

/-- So that numbers are pieces. -/
local instance neZeroPieces : NeZero 65536 := ⟨by decide⟩

/-! ## Bytes -/

/-- The two bytes of a piece. -/
def pieceBytes (piece : Fin 65536) : List UInt8 :=
  [UInt8.ofNat (piece.val / 256), UInt8.ofNat (piece.val % 256)]

/-- The piece with two bytes. -/
def bytesPiece (high low : UInt8) : Fin 65536 := Fin.ofNat _ (256 * high.toNat + low.toNat)

/-- The pieces with the bytes. -/
def bytesPieces : List UInt8 → List (Fin 65536)
  | high :: low :: bytes => bytesPiece high low :: bytesPieces bytes
  | _ => []

/-- The bytes of an address. -/
def Ip.bytes : Ip → List UInt8
  | .v4 ip => [ip.a, ip.b, ip.c, ip.d]
  | .v6 ip => ip.pieces.flatMap pieceBytes

/-- The address with the bytes. -/
def Ip.ofBytes : List UInt8 → Option Ip
  | [a, b, c, d] => some (.v4 ⟨a, b, c, d⟩)
  | bytes => if bytes.length = 16 then (ofPieces (bytesPieces bytes)).map .v6 else none

/-- The text of an address. -/
def Ip.toText : Ip → List Char
  | .v4 ip => ip.toText
  | .v6 ip => ip.toText

theorem bytesPiece_pieceBytes (piece : Fin 65536) :
    bytesPiece (UInt8.ofNat (piece.val / 256)) (UInt8.ofNat (piece.val % 256)) = piece := by
  have hhigh : piece.val / 256 < 256 := by omega
  have hlow : piece.val % 256 < 256 := Nat.mod_lt _ (by decide)
  ext
  simp only [bytesPiece, Fin.val_ofNat, UInt8.toNat_ofNat', Nat.mod_eq_of_lt hhigh,
    Nat.mod_eq_of_lt hlow, Nat.div_add_mod]
  exact Nat.mod_eq_of_lt piece.isLt

theorem pieceBytes_bytesPiece (high low : UInt8) :
    pieceBytes (bytesPiece high low) = [high, low] := by
  have hhigh := high.toNat_lt
  have hlow := low.toNat_lt
  have hval : (bytesPiece high low).val = 256 * high.toNat + low.toNat :=
    Nat.mod_eq_of_lt (by omega)
  have hdiv : (256 * high.toNat + low.toNat) / 256 = high.toNat := by omega
  have hmod : (256 * high.toNat + low.toNat) % 256 = low.toNat := by omega
  rw [pieceBytes, hval, hdiv, hmod, UInt8.ofNat_toNat, UInt8.ofNat_toNat]

/-- An even number of bytes is that of their pieces. -/
theorem flatMap_bytesPieces {n : ℕ} {bytes : List UInt8} (h : bytes.length = 2 * n) :
    (bytesPieces bytes).flatMap pieceBytes = bytes ∧ (bytesPieces bytes).length = n := by
  fun_induction bytesPieces bytes generalizing n with
  | case1 high low bytes ih =>
      obtain ⟨m, rfl⟩ : ∃ m, n = m + 1 := ⟨n - 1, by simp at h; omega⟩
      obtain ⟨hbytes, hlength⟩ := ih (n := m) (by simpa [Nat.mul_succ] using h)
      simp [pieceBytes_bytesPiece, hbytes, hlength]
  | case2 bytes hshort =>
      match bytes with
      | [] => exact ⟨rfl, by simpa [eq_comm] using h⟩
      | [b] => simp at h; omega
      | high :: low :: bytes => exact absurd rfl (hshort high low bytes)

/-- **Four or sixteen bytes make an address**, which has them. -/
theorem Ip.bytes_of_ofBytes {bytes : List UInt8} (h : bytes.length = 4 ∨ bytes.length = 16) :
    ∃ ip, Ip.ofBytes bytes = some ip ∧ ip.bytes = bytes := by
  rcases h with h | h
  · match bytes, h with
    | [a, b, c, d], _ => exact ⟨.v4 ⟨a, b, c, d⟩, rfl, rfl⟩
  · obtain ⟨hbytes, hlength⟩ := flatMap_bytesPieces (n := 8) h
    refine ⟨.v6 ⟨bytesPieces bytes, hlength⟩, ?_, hbytes⟩
    rw [Ip.ofBytes, if_pos h, ofPieces, dif_pos hlength]
    · rfl
    · rintro a b c d rfl
      cases h

/-- There is a colon in the text of an IPv6 address, and so it is no IPv4 address. -/
theorem parseIpv4_eq_none {text : List Char} (h : ':' ∈ text) : parseIpv4 text = none := by
  by_contra hsome
  obtain ⟨ip, hip⟩ := Option.ne_none_iff_exists'.mp hsome
  have hcolon := mem_of_parseIpv4 hip ':' h
  rw [digitValue_eq_none (by decide)] at hcolon
  simp at hcolon

theorem parseIp_of_parseIpv6 {text : List Char} {ip : Ipv6} (h : parseIpv6 text = some ip) :
    parseIp text = some (.v6 ip) := by
  rw [parseIp, parseIpv4_eq_none (colon_mem_of_parseIpv6 h), h]
  rfl

/-- **An address is read back from its text.** -/
theorem parseIp_toText (ip : Ip) : parseIp ip.toText = some ip := by
  cases ip with
  | v4 ip => rw [Ip.toText, parseIp, parseIpv4_toText]
  | v6 ip => exact parseIp_of_parseIpv6 (parseIpv6_toText ip)

/-! ## The text of `inet_ntop` -/

/-- The low 32 bits. -/
def Ipv6.low (ip : Ipv6) : Ipv4 :=
  let high := ip.pieces.getD 6 0
  let low := ip.pieces.getD 7 0
  ⟨UInt8.ofNat (high.val / 256), UInt8.ofNat (high.val % 256), UInt8.ofNat (low.val / 256),
    UInt8.ofNat (low.val % 256)⟩

/-- The text that `inet_ntop` makes of an address. -/
def Ipv6.ntop (ip : Ipv6) : List Char :=
  match ip.gap with
  | none => joinPieces ip.pieces
  | some i =>
    let run := zeroRun ip.pieces i
    let back :=
      if i = 0 ∧ run = 6 then ip.low.toText
      else if i = 0 ∧ run = 5 ∧ ip.pieces[5]? = some 0xffff then
        pieceText 0xffff ++ ':' :: ip.low.toText
      else joinPieces (ip.pieces.drop (i + run))
    joinPieces (ip.pieces.take i) ++ ':' :: ':' :: back

/-- The address lies in `::ffff:0:0/96`. -/
def Ipv6.Mapped (ip : Ipv6) : Prop := ip.pieces.take 6 = [0, 0, 0, 0, 0, 0xffff]

instance (ip : Ipv6) : Decidable ip.Mapped := by
  unfold Ipv6.Mapped
  infer_instance

/-- The mapped address of an IPv4 address. -/
def Ipv4.mapped (ip : Ipv4) : Ipv6 := ⟨[0, 0, 0, 0, 0, 0xffff] ++ ip.pieces, rfl⟩

/-- The address is written with `::` in front of a piece `ffff` that is not the last. -/
def Ipv6.BeginsMarked (ip : Ipv6) : Prop :=
  ip.gap = some 0 ∧ zeroRun ip.pieces 0 ≤ 5 ∧ ip.pieces[zeroRun ip.pieces 0]? = some 0xffff

theorem pieces_low (ip : Ipv6) : ip.low.pieces = ip.pieces.drop 6 := by
  match ip with
  | ⟨[_, _, _, _, _, _, p, q], _⟩ =>
    exact congrArg₂ (fun p q => [p, q]) (bytesPiece_pieceBytes p) (bytesPiece_pieceBytes q)

/-- The text of an IPv4 address is a token with a dot. -/
theorem isToken_toText (ip : Ipv4) : IsToken ip.toText ∧ '.' ∈ ip.toText := by
  have hdot : '.' ∈ ip.toText := by simp [Ipv4.toText, List.intercalate]
  refine ⟨⟨List.ne_nil_of_mem hdot, fun hcolon => ?_⟩, hdot⟩
  have hnone := parseIpv4_eq_none hcolon
  rw [parseIpv4_toText] at hnone
  cases hnone

theorem lastPieces_toText (ip : Ipv4) : lastPieces ip.toText = some ip.pieces := by
  rw [lastPieces, if_pos (isToken_toText ip).2, parseIpv4_toText]
  rfl

/-- A piece `ffff` and an IPv4 address. -/
theorem readPieces_marked (ip : Ipv4) :
    readPieces lastPieces (tokens (pieceText 0xffff ++ ':' :: ip.toText)) =
      some (0xffff :: ip.pieces) := by
  have htokens : tokens (pieceText 0xffff ++ ':' :: ip.toText) = [pieceText 0xffff, ip.toText] := by
    simpa using tokens_intercalate [pieceText 0xffff, ip.toText]
      (by simpa using ⟨isToken_pieceText 0xffff, (isToken_toText _).1⟩)
  rw [htokens, readPieces, hexPiece_pieceText, readPieces, lastPieces_toText]
  · rfl
  · simp

/-- **A mapped address is read from its IPv4 address behind `::ffff:`.** -/
theorem parseIpv6_mapped (ip : Ipv4) :
    parseIpv6 ("::ffff:".toList ++ ip.toText) = some ip.mapped := by
  have hlength : ([] ++ List.replicate 5 0 ++ (0xffff :: ip.pieces)).length = 8 := rfl
  exact parseIpv6_gap (by decide) (readPieces_marked ip) hlength

/-- What `inet_ntop` writes behind the gap is read as the pieces there. -/
theorem readPieces_ntop {ip : Ipv6} {i : ℕ} :
    readPieces lastPieces (tokens
      (if i = 0 ∧ zeroRun ip.pieces i = 6 then ip.low.toText
      else if i = 0 ∧ zeroRun ip.pieces i = 5 ∧ ip.pieces[5]? = some 0xffff then
        pieceText 0xffff ++ ':' :: ip.low.toText
      else joinPieces (ip.pieces.drop (i + zeroRun ip.pieces i)))) =
        some (ip.pieces.drop (i + zeroRun ip.pieces i)) := by
  split_ifs with hsix hfive
  · obtain ⟨rfl, hrun⟩ := hsix
    have htokens : tokens ip.low.toText = [ip.low.toText] := by
      simpa using tokens_intercalate [ip.low.toText] (by simpa using (isToken_toText _).1)
    rw [htokens, readPieces, lastPieces_toText, pieces_low, hrun]
  · obtain ⟨rfl, hrun, hpiece⟩ := hfive
    have hdrop : ip.pieces.drop 5 = 0xffff :: ip.pieces.drop 6 := by
      obtain ⟨hlt, heq⟩ := List.getElem?_eq_some_iff.mp hpiece
      rw [List.drop_eq_getElem_cons hlt, heq]
    rw [readPieces_marked, pieces_low, hrun, hdrop]
  · rw [tokens_joinPieces, readPieces_map lastPieces_pieceText]

/-- **An IPv6 address is read back from what `inet_ntop` makes of it.** -/
theorem parseIpv6_ntop (ip : Ipv6) : parseIpv6 ip.ntop = some ip := by
  rw [Ipv6.ntop]
  cases hgap : ip.gap with
  | none => exact parseIpv6_full ip
  | some i =>
      obtain ⟨hrun, hpieces⟩ := pieces_of_gap hgap
      have hread := parseIpv6_gap (by omega : zeroRun ip.pieces i ≠ 0) readPieces_ntop
        (hpieces ▸ ip.length_pieces)
      rw [← hpieces] at hread
      exact hread.trans (ofPieces_pieces ip)

/-! ### How the text begins -/

/-- **The mapped addresses** are those with five zeros in the gap and `ffff` behind it. -/
theorem mapped_iff (ip : Ipv6) :
    ip.Mapped ↔ ip.gap = some 0 ∧ zeroRun ip.pieces 0 = 5 ∧ ip.pieces[5]? = some 0xffff := by
  constructor
  · intro h
    match ip with
    | ⟨[a, b, c, d, e, f, p, q], hlength⟩ =>
      simp only [Ipv6.Mapped, List.take_succ_cons, List.take_zero, List.cons.injEq, and_true] at h
      obtain ⟨rfl, rfl, rfl, rfl, rfl, rfl⟩ := h
      have hrun : zeroRun [0, 0, 0, 0, 0, 0xffff, p, q] 0 = 5 := rfl
      refine ⟨?_, hrun, rfl⟩
      -- no other run is longer
      have hmax : (List.range 8).argmax (zeroRun [0, 0, 0, 0, 0, 0xffff, p, q]) = some 0 := by
        refine List.argmax_eq_some_iff.mpr ⟨by decide, fun i hi => ?_, by simp [List.range_succ]⟩
        have hi : i < 8 := List.mem_range.mp hi
        rw [hrun]
        by_cases hsmall : i < 3
        · interval_cases i <;> simp [zeroRun]
        · have hle := (List.takeWhile_sublist (· = 0)
            (l := [0, 0, 0, 0, 0, 0xffff, p, q].drop i)).length_le
          rw [List.length_drop] at hle
          exact hle.trans (by simp; omega)
      rw [Ipv6.gap, hmax]
      rfl
  · rintro ⟨hgap, hrun, hpiece⟩
    obtain ⟨-, hpieces⟩ := pieces_of_gap hgap
    obtain ⟨hlt, heq⟩ := List.getElem?_eq_some_iff.mp hpiece
    rw [hrun, List.take_zero, List.nil_append, Nat.zero_add, List.drop_eq_getElem_cons hlt,
      heq] at hpieces
    rw [Ipv6.Mapped, hpieces]
    rfl

/-- A token in front of a colon. -/
theorem append_colon_inj {token token' rest rest' : List Char} (h : ':' ∉ token)
    (h' : ':' ∉ token') (heq : token ++ ':' :: rest = token' ++ ':' :: rest') :
    token = token' ∧ rest = rest' := by
  induction token generalizing token' with
  | nil =>
      cases token' with
      | nil => exact ⟨rfl, (List.cons.inj heq).2⟩
      | cons c token' =>
          rw [(List.cons.inj heq).1] at h'
          simp at h'
  | cons c token ih =>
      cases token' with
      | nil =>
          rw [← (List.cons.inj heq).1] at h
          simp at h
      | cons c' token' =>
          simp only [List.mem_cons, not_or] at h h'
          obtain ⟨htoken, hrest⟩ := ih h.2 h'.2 (List.cons.inj heq).2
          rw [htoken, (List.cons.inj heq).1]
          exact ⟨rfl, hrest⟩

theorem pieceText_inj {piece piece' : Fin 65536} (h : pieceText piece = pieceText piece') :
    piece = piece' := by
  have hread := hexPiece_pieceText piece
  rw [h, hexPiece_pieceText] at hread
  exact (Option.some.inj hread).symm

/-- Joined pieces do not begin with a colon. -/
theorem joinPieces_ne_colon {piece : Fin 65536} {pieces : List (Fin 65536)} {rest : List Char}
    (text : List Char) (h : joinPieces (piece :: pieces) ++ text = ':' :: rest) : False := by
  obtain ⟨hne, hcolon⟩ := isToken_pieceText piece
  obtain ⟨c, cs, hcs⟩ := List.exists_cons_of_ne_nil hne
  rw [hcs] at hcolon
  have hhead : ∃ more, joinPieces (piece :: pieces) = c :: more := by
    cases pieces with
    | nil => exact ⟨cs, by simp [joinPieces, hcs]⟩
    | cons next pieces => exact ⟨_, by rw [joinPieces_cons_cons, hcs]; rfl⟩
  obtain ⟨more, hmore⟩ := hhead
  rw [hmore] at h
  exact hcolon ((List.cons.inj h).1 ▸ List.mem_cons_self)

/-- Joined pieces begin with a piece and a colon if that is the first of several. -/
theorem joinPieces_eq_append_iff {pieces : List (Fin 65536)} {piece : Fin 65536} :
    (∃ rest, joinPieces pieces = pieceText piece ++ ':' :: rest) ↔
      pieces[0]? = some piece ∧ 2 ≤ pieces.length := by
  have hmark := (isToken_pieceText piece).2
  match pieces with
  | [] => simp [joinPieces]
  | [piece'] =>
    have hcolon := (isToken_pieceText piece').2
    constructor
    · rintro ⟨rest, heq⟩
      rw [joinPieces, List.map_singleton, List.intercalate_singleton] at heq
      exact absurd (by simp [heq]) hcolon
    · intro h
      exact absurd h.2 (by simp)
  | piece' :: next :: pieces =>
    rw [joinPieces_cons_cons]
    constructor
    · rintro ⟨rest, heq⟩
      obtain ⟨htext, -⟩ := append_colon_inj (isToken_pieceText piece').2 hmark heq
      exact ⟨by rw [pieceText_inj htext]; rfl, by simp⟩
    · rintro ⟨hpiece, -⟩
      obtain rfl : piece' = piece := by simpa using hpiece
      exact ⟨_, rfl⟩

/-- **The text begins with `::ffff:`** exactly if the gap stands in front of a piece `ffff`. -/
theorem ntop_begins_iff (ip : Ipv6) :
    (∃ rest, ip.ntop = ':' :: ':' :: (pieceText 0xffff ++ ':' :: rest)) ↔ ip.BeginsMarked := by
  have hlength := ip.length_pieces
  rw [Ipv6.ntop, Ipv6.BeginsMarked]
  cases hgap : ip.gap with
  | none =>
      refine iff_of_false ?_ (by simp)
      rintro ⟨rest, heq⟩
      have hne : ip.pieces ≠ [] := by simp [← List.length_eq_zero_iff, hlength]
      obtain ⟨piece, pieces, hpieces⟩ := List.exists_cons_of_ne_nil hne
      simp only [hpieces] at heq
      exact joinPieces_ne_colon [] (by simpa using heq)
  | some i =>
      cases i with
      | succ i =>
          refine iff_of_false ?_ (by simp)
          rintro ⟨rest, heq⟩
          have hne : ip.pieces.take (i + 1) ≠ [] := by
            simp [← List.length_eq_zero_iff, hlength]
          obtain ⟨piece, pieces, hpieces⟩ := List.exists_cons_of_ne_nil hne
          simp only [hpieces] at heq
          exact joinPieces_ne_colon _ heq
      | zero =>
          obtain ⟨hrun, -⟩ := pieces_of_gap hgap
          have hfront : joinPieces (ip.pieces.take 0) = [] := rfl
          simp only [hfront, List.nil_append, List.cons.injEq, true_and]
          split_ifs with hsix hfive
          · refine iff_of_false ?_ (by omega)
            rintro ⟨rest, heq⟩
            exact (isToken_toText ip.low).1.2 (by simp [heq])
          · exact iff_of_true ⟨_, rfl⟩ ⟨by omega, by rw [hfive.1]; exact hfive.2⟩
          · rw [joinPieces_eq_append_iff, List.getElem?_drop, List.length_drop, hlength]
            constructor
            · rintro ⟨hpiece, hmore⟩
              exact ⟨by omega, by simpa using hpiece⟩
            · rintro ⟨hle, hpiece⟩
              exact ⟨by simpa using hpiece, by omega⟩

end Proxinator.Lib
