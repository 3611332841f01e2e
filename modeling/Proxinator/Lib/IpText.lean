import Mathlib.Data.List.Basic
import Mathlib.Data.List.Induction
import Mathlib.Data.List.MinMax
import Mathlib.Data.List.TakeWhile
import Mathlib.Data.Nat.Notation

/-!
# IP addresses as text

Numbers in digits of a base, and the texts of IPv4 and IPv6 addresses. An IPv4 address is
four decimal numbers without leading zeros. An IPv6 address is eight hexadecimal pieces of
up to four digits between colons; one run of zero pieces may be left out, which leaves two
colons in a row, and the last two pieces may be written as an IPv4 address. The text of an
address leaves out its first longest run of two or more zeros.

## Main results

* `readDigits_toDigits` — the digits of a number are read back.
* `parseIpv4_toText`, `parseIpv6_toText` — an address is read back from its text,
* `parseIpv6_full` — and an IPv6 address also from its eight pieces in full.
-/

namespace Proxinator.Lib

/-! ## Digits -/

/-- The value of a hexadecimal digit. -/
def digitValue (c : Char) : Option ℕ :=
  if '0' ≤ c ∧ c ≤ '9' then some (c.toNat - '0'.toNat)
  else if 'a' ≤ c ∧ c ≤ 'f' then some (c.toNat - 'a'.toNat + 10)
  else if 'A' ≤ c ∧ c ≤ 'F' then some (c.toNat - 'A'.toNat + 10)
  else none

/-- Read one more digit of a number in base `b`. -/
def readDigit (b n : ℕ) (c : Char) : Option ℕ :=
  match digitValue c with
  | some d => if d < b then some (b * n + d) else none
  | none => none

/-- The number with the digits in base `b`. -/
def readDigits (b : ℕ) (cs : List Char) : Option ℕ := cs.foldlM (readDigit b) 0

theorem digitValue_digitChar {d : ℕ} (hd : d < 16) : digitValue (Nat.digitChar d) = some d := by
  have hall : ∀ d : Fin 16, digitValue (Nat.digitChar d) = some d.val := by decide
  exact hall ⟨d, hd⟩

/-- **The digits of a number are read back.** -/
theorem readDigits_toDigits {b : ℕ} (hb : 1 < b) (hb16 : b ≤ 16) (n : ℕ) :
    readDigits b (Nat.toDigits b n) = some n := by
  have hdigit : ∀ n d, d < b → readDigit b n (Nat.digitChar d) = some (b * n + d) := by
    intro n d hd
    rw [readDigit, digitValue_digitChar (by omega)]
    exact if_pos hd
  induction n using Nat.base_induction b hb with
  | single m hm =>
      rw [Nat.toDigits_of_lt_base hm, readDigits, List.foldlM_cons, hdigit 0 m hm]
      simp
  | digit m k hk hm ih =>
      rw [← Nat.toDigits_append_toDigits hb hm hk, Nat.toDigits_of_lt_base hk, readDigits,
        List.foldlM_append, ← readDigits, ih]
      simp [hdigit m k hk]

/-- A number is written in digits. -/
theorem mem_toDigits {b : ℕ} (hb : 1 < b) {n : ℕ} {c : Char} (hc : c ∈ Nat.toDigits b n) :
    ∃ d, d < b ∧ c = Nat.digitChar d := by
  induction n using Nat.base_induction b hb with
  | single m hm =>
      rw [Nat.toDigits_of_lt_base hm] at hc
      exact ⟨m, hm, List.mem_singleton.mp hc⟩
  | digit m k hk hm ih =>
      rw [← Nat.toDigits_append_toDigits hb hm hk, Nat.toDigits_of_lt_base hk] at hc
      rcases List.mem_append.mp hc with hc | hc
      · exact ih hc
      · exact ⟨k, hk, List.mem_singleton.mp hc⟩

/-- The digits of a number of which all characters that are read are digits. -/
theorem isSome_digitValue_of_readDigits {b : ℕ} {cs : List Char} {n : ℕ}
    (h : readDigits b cs = some n) : ∀ c ∈ cs, (digitValue c).isSome := by
  induction cs using List.reverseRecOn generalizing n with
  | nil => simp
  | append_singleton cs c ih =>
      rw [readDigits, List.foldlM_append, ← readDigits] at h
      cases hcs : readDigits b cs with
      | none => simp [hcs] at h
      | some m =>
          intro c' hc'
          rcases List.mem_append.mp hc' with hc' | hc'
          · exact ih hcs c' hc'
          · rw [List.mem_singleton.mp hc']
            by_contra hnone
            simp only [Option.not_isSome_iff_eq_none] at hnone
            simp [hcs, readDigit, hnone] at h

/-- A decimal digit is the character of its value. -/
theorem digitChar_of_digitValue {c : Char} {d : ℕ} (h : digitValue c = some d) (hd : d < 10) :
    Nat.digitChar d = c := by
  have hchar : c = Char.ofNat (48 + d) ∧ d < 10 := by
    rw [digitValue] at h
    split_ifs at h with hdigit hlower hupper
    · have hle : 48 ≤ c.toNat := hdigit.1
      obtain rfl := Option.some.inj h
      refine ⟨?_, hd⟩
      have hsub : 48 + (c.toNat - '0'.toNat) = c.toNat := Nat.add_sub_cancel' hle
      rw [hsub, Char.ofNat_toNat]
    · have := Option.some.inj h
      omega
    · have := Option.some.inj h
      omega
  have hall : ∀ d : Fin 10, Nat.digitChar d = Char.ofNat (48 + d) := by decide
  rw [hchar.1]
  exact hall ⟨d, hd⟩

/-- **A decimal number without leading zeros is written as it was read.** -/
theorem toDigits_readDigits {cs : List Char} {n : ℕ} (hne : cs ≠ [])
    (hzero : ¬ (cs.head? = some '0' ∧ 1 < cs.length)) (h : readDigits 10 cs = some n) :
    Nat.toDigits 10 n = cs := by
  induction cs using List.reverseRecOn generalizing n with
  | nil => exact absurd rfl hne
  | append_singleton cs c ih =>
      rw [readDigits, List.foldlM_append, ← readDigits] at h
      cases hcs : readDigits 10 cs with
      | none => simp [hcs] at h
      | some m =>
          cases hvalue : digitValue c with
          | none => simp [hcs, readDigit, hvalue] at h
          | some d =>
              have hread : d < 10 ∧ 10 * m + d = n := by
                simpa [hcs, readDigit, hvalue] using h
              obtain ⟨hd, rfl⟩ := hread
              have hchar := digitChar_of_digitValue hvalue hd
              by_cases hnil : cs = []
              · subst hnil
                obtain rfl : m = 0 := (Option.some.inj hcs).symm
                rw [Nat.mul_zero, Nat.zero_add, Nat.toDigits_of_lt_base hd, hchar]
                rfl
              · have hhead : cs.head? ≠ some '0' := by
                  intro hhead
                  refine hzero ⟨?_, ?_⟩
                  · rw [List.head?_append_of_ne_nil _ hnil, hhead]
                  · have hlength := List.length_pos_of_ne_nil hnil
                    simp
                    omega
                have hdigits := ih hnil (fun hand => hhead hand.1) hcs
                have hm : 0 < m := by
                  refine Nat.pos_of_ne_zero ?_
                  rintro rfl
                  rw [← hdigits] at hhead
                  exact hhead rfl
                rw [← Nat.toDigits_append_toDigits (by decide) hm hd, hdigits,
                  Nat.toDigits_of_lt_base hd, hchar]

/-- A digit is none of these characters. -/
theorem digitValue_eq_none {c : Char} (hc : c ∈ [':', '.', '[', ']', '/', '?', '#', '@']) :
    digitValue c = none := by
  simp only [List.mem_cons, List.not_mem_nil, or_false] at hc
  rcases hc with rfl | rfl | rfl | rfl | rfl | rfl | rfl | rfl <;> decide

/-! ## IPv4 -/

/-- An IPv4 address. -/
structure Ipv4 where
  a : UInt8
  b : UInt8
  c : UInt8
  d : UInt8
  deriving DecidableEq, Repr

/-- A number up to 255 without leading zeros. -/
def octet (cs : List Char) : Option UInt8 :=
  if cs = [] ∨ (cs.head? = some '0' ∧ 1 < cs.length) then none
  else
    match readDigits 10 cs with
    | some n => if n < 256 then some (UInt8.ofNat n) else none
    | none => none

/-- The text of an address. -/
def Ipv4.toText (ip : Ipv4) : List Char :=
  ['.'].intercalate ([ip.a, ip.b, ip.c, ip.d].map fun o => Nat.toDigits 10 o.toNat)

/-- The address with a text. -/
def parseIpv4 (text : List Char) : Option Ipv4 :=
  match text.splitOn '.' with
  | [a, b, c, d] =>
    match octet a, octet b, octet c, octet d with
    | some a, some b, some c, some d => some ⟨a, b, c, d⟩
    | _, _, _, _ => none
  | _ => none

theorem octet_toDigits (o : UInt8) : octet (Nat.toDigits 10 o.toNat) = some o := by
  have hall : ∀ n : Fin 256, octet (Nat.toDigits 10 n) = some (UInt8.ofNat n) := by
    decide +kernel
  rw [hall ⟨o.toNat, o.toNat_lt⟩, UInt8.ofNat_toNat]

/-- What is no digit does not occur in the digits of a number. -/
theorem notMem_toDigits {b : ℕ} (hb : 1 < b) (hb16 : b ≤ 16) {c : Char}
    (hc : digitValue c = none) (n : ℕ) : c ∉ Nat.toDigits b n := by
  intro hmem
  obtain ⟨d, hd, rfl⟩ := mem_toDigits hb hmem
  rw [digitValue_digitChar (by omega)] at hc
  cases hc

/-- The numbers of an address are between the dots of its text. -/
theorem splitOn_toText (ip : Ipv4) : ip.toText.splitOn '.' =
    [ip.a, ip.b, ip.c, ip.d].map fun o => Nat.toDigits 10 o.toNat := by
  apply List.splitOn_intercalate
  · intro token htoken
    obtain ⟨o, -, rfl⟩ := List.mem_map.mp htoken
    exact notMem_toDigits (by decide) (by decide) (digitValue_eq_none (by decide)) _
  · simp

/-- **An IPv4 address is read back from its text.** -/
theorem parseIpv4_toText (ip : Ipv4) : parseIpv4 ip.toText = some ip := by
  simp only [parseIpv4, splitOn_toText, List.map_cons, List.map_nil, octet_toDigits]

theorem toDigits_of_octet {cs : List Char} {o : UInt8} (h : octet cs = some o) :
    Nat.toDigits 10 o.toNat = cs := by
  rw [octet] at h
  split_ifs at h with hzero
  rw [not_or] at hzero
  cases hread : readDigits 10 cs with
  | none => simp [hread] at h
  | some n =>
      rw [hread] at h
      dsimp only at h
      split_ifs at h with hn
      obtain rfl := Option.some.inj h
      rw [UInt8.toNat_ofNat_of_lt' (by simpa using hn)]
      exact toDigits_readDigits hzero.1 hzero.2 hread

theorem length_toDigits_octet (o : UInt8) : (Nat.toDigits 10 o.toNat).length ≤ 3 := by
  have hall : ∀ n : Fin 256, (Nat.toDigits 10 n).length ≤ 3 := by decide +kernel
  exact hall ⟨o.toNat, o.toNat_lt⟩

/-- An IPv4 address has a text of 3 to 15 characters. -/
theorem Ipv4.length_toText (ip : Ipv4) : 3 ≤ ip.toText.length ∧ ip.toText.length ≤ 15 := by
  have ha := length_toDigits_octet ip.a
  have hb := length_toDigits_octet ip.b
  have hc := length_toDigits_octet ip.c
  have hd := length_toDigits_octet ip.d
  simp only [toText, List.intercalate, List.map_cons, List.map_nil, List.intersperse_cons_cons,
    List.intersperse_singleton, List.flatten_cons, List.flatten_nil, List.length_append,
    List.length_cons, List.length_nil]
  omega

/-- **An IPv4 address has one text.** -/
theorem toText_of_parseIpv4 {text : List Char} {ip : Ipv4} (h : parseIpv4 text = some ip) :
    ip.toText = text := by
  rw [parseIpv4] at h
  split at h
  next a b c d hsplit =>
    split at h
    next a' b' c' d' ha hb hc hd =>
      obtain rfl := Option.some.inj h
      rw [Ipv4.toText, List.map_cons, List.map_cons, List.map_cons, List.map_cons, List.map_nil,
        toDigits_of_octet ha, toDigits_of_octet hb, toDigits_of_octet hc, toDigits_of_octet hd,
        ← hsplit, List.intercalate_splitOn]
    next => cases h
  next => cases h

theorem isSome_digitValue_of_octet {cs : List Char} {o : UInt8} (h : octet cs = some o) :
    ∀ c ∈ cs, (digitValue c).isSome := by
  rw [octet] at h
  split_ifs at h
  cases hread : readDigits 10 cs with
  | none => simp [hread] at h
  | some n => exact isSome_digitValue_of_readDigits hread

/-- A character of a text that is split lies between the separators. -/
theorem mem_splitOn (separator : Char) {text : List Char} {c : Char} (hc : c ∈ text) :
    c = separator ∨ ∃ token ∈ text.splitOn separator, c ∈ token := by
  have hsplit : [separator].intercalate (text.splitOn separator) = text :=
    List.intercalate_splitOn separator
  rw [← hsplit] at hc
  clear hsplit
  generalize text.splitOn separator = tokens at hc
  induction tokens with
  | nil => simp at hc
  | cons token tokens ih =>
      cases tokens with
      | nil =>
          rw [List.intercalate_singleton] at hc
          exact Or.inr ⟨token, List.mem_singleton.mpr rfl, hc⟩
      | cons next tokens =>
          rw [List.intercalate_cons_of_ne_nil (by simp)] at hc
          rcases List.mem_append.mp hc with hc | hc
          · rcases List.mem_append.mp hc with hc | hc
            · exact Or.inr ⟨token, List.mem_cons_self, hc⟩
            · exact Or.inl (List.mem_singleton.mp hc)
          · rcases ih hc with hc | ⟨token', htoken', hc⟩
            · exact Or.inl hc
            · exact Or.inr ⟨token', List.mem_cons_of_mem _ htoken', hc⟩

/-- The text of an IPv4 address has only digits and dots. -/
theorem mem_of_parseIpv4 {text : List Char} {ip : Ipv4} (h : parseIpv4 text = some ip) :
    ∀ c ∈ text, c = '.' ∨ (digitValue c).isSome := by
  rw [parseIpv4] at h
  intro c hc
  split at h
  next a b c' d htokens =>
    split at h
    next oa ob oc od ha hb hc' hd =>
      rcases mem_splitOn '.' hc with hdot | ⟨token, htoken, hmem⟩
      · exact Or.inl hdot
      · right
        rw [htokens] at htoken
        simp only [List.mem_cons, List.not_mem_nil, or_false] at htoken
        rcases htoken with rfl | rfl | rfl | rfl
        · exact isSome_digitValue_of_octet ha c hmem
        · exact isSome_digitValue_of_octet hb c hmem
        · exact isSome_digitValue_of_octet hc' c hmem
        · exact isSome_digitValue_of_octet hd c hmem
    next => cases h
  next => cases h

/-! ## IPv6 -/

/-- An IPv6 address, in pieces of 16 bits. -/
structure Ipv6 where
  pieces : List (Fin 65536)
  length_pieces : pieces.length = 8
  deriving DecidableEq, Repr

/-- The digits of a piece. -/
def pieceText (piece : Fin 65536) : List Char := Nat.toDigits 16 piece.val

/-- How many zeros there are in a row from piece `i` on. -/
def zeroRun (pieces : List (Fin 65536)) (i : ℕ) : ℕ :=
  ((pieces.drop i).takeWhile (· = 0)).length

/-- Where the first longest run of zeros begins, if it is one of two or more. -/
def Ipv6.gap (ip : Ipv6) : Option ℕ :=
  ((List.range 8).argmax (zeroRun ip.pieces)).filter fun i => 2 ≤ zeroRun ip.pieces i

/-- Pieces between colons. -/
def joinPieces (pieces : List (Fin 65536)) : List Char :=
  [':'].intercalate (pieces.map pieceText)

/-- The text of an address. -/
def Ipv6.toText (ip : Ipv6) : List Char :=
  match ip.gap with
  | none => joinPieces ip.pieces
  | some i =>
    joinPieces (ip.pieces.take i) ++ ':' :: ':' ::
      joinPieces (ip.pieces.drop (i + zeroRun ip.pieces i))

/-- A piece of up to four digits. -/
def hexPiece (cs : List Char) : Option (Fin 65536) :=
  if cs = [] ∨ 4 < cs.length then none
  else
    match readDigits 16 cs with
    | some n => if h : n < 65536 then some ⟨n, h⟩ else none
    | none => none

/-- The two pieces that an IPv4 address makes. -/
def Ipv4.pieces (ip : Ipv4) : List (Fin 65536) :=
  [Fin.ofNat _ (256 * ip.a.toNat + ip.b.toNat), Fin.ofNat _ (256 * ip.c.toNat + ip.d.toNat)]

/-- A token that is one piece. -/
def onePiece (token : List Char) : Option (List (Fin 65536)) :=
  (hexPiece token).map fun piece => [piece]

/-- The last token of a text: one piece, or an IPv4 address. -/
def lastPieces (token : List Char) : Option (List (Fin 65536)) :=
  if '.' ∈ token then (parseIpv4 token).map Ipv4.pieces else onePiece token

/-- Read pieces, the last of them with `last`. -/
def readPieces (last : List Char → Option (List (Fin 65536))) :
    List (List Char) → Option (List (Fin 65536))
  | [] => some []
  | [token] => last token
  | token :: tokens => do return (← hexPiece token) :: (← readPieces last tokens)

/-- What lies between the colons. -/
def tokens (text : List Char) : List (List Char) := if text = [] then [] else text.splitOn ':'

/-- What comes before and after the first two colons in a row. -/
def splitGap : List Char → Option (List Char × List Char)
  | [] => none
  | ':' :: ':' :: rest => some ([], rest)
  | c :: rest => (splitGap rest).map fun parts => (c :: parts.1, parts.2)

/-- An address has eight pieces. -/
def ofPieces (pieces : List (Fin 65536)) : Option Ipv6 :=
  if h : pieces.length = 8 then some ⟨pieces, h⟩ else none

/-- The address with a text. -/
def parseIpv6 (text : List Char) : Option Ipv6 :=
  match splitGap text with
  | none => (readPieces lastPieces (tokens text)).bind ofPieces
  | some (front, back) =>
    match readPieces onePiece (tokens front), readPieces lastPieces (tokens back) with
    | some front, some back =>
      -- the gap stands for at least one piece
      let missing := 8 - (front.length + back.length)
      if missing = 0 then none else ofPieces (front ++ List.replicate missing 0 ++ back)
    | _, _ => none

example : (parseIpv6 "1:0:0:2::3".toList).map Ipv6.toText = some "1:0:0:2::3".toList := by
  decide +kernel

example : (parseIpv6 "::FFFF:192.0.2.1".toList).map Ipv6.toText =
    some "::ffff:c000:201".toList := by
  decide +kernel

example : parseIpv6 "1::2:3:4:5:6:7:8".toList = none := by decide +kernel

/-! ### Round trips -/

/-- What stands between two colons. -/
def IsToken (token : List Char) : Prop := token ≠ [] ∧ ':' ∉ token

theorem isToken_pieceText (piece : Fin 65536) : IsToken (pieceText piece) :=
  ⟨Nat.toDigits_ne_nil,
    notMem_toDigits (by decide) (by decide) (digitValue_eq_none (by decide)) piece.val⟩

theorem hexPiece_pieceText (piece : Fin 65536) : hexPiece (pieceText piece) = some piece := by
  have hlength : (pieceText piece).length ≤ 4 :=
    (Nat.length_toDigits_le_iff (by decide) (by decide)).mpr piece.isLt
  have hread : readDigits 16 (pieceText piece) = some piece.val :=
    readDigits_toDigits (by decide) (by decide) piece.val
  rw [hexPiece, if_neg (by simp [(isToken_pieceText piece).1, hlength]), hread]
  exact dif_pos piece.isLt

theorem onePiece_pieceText (piece : Fin 65536) : onePiece (pieceText piece) = some [piece] := by
  rw [onePiece, hexPiece_pieceText]
  rfl

theorem lastPieces_pieceText (piece : Fin 65536) :
    lastPieces (pieceText piece) = some [piece] := by
  have hdot : '.' ∉ pieceText piece :=
    notMem_toDigits (by decide) (by decide) (digitValue_eq_none (by decide)) piece.val
  rw [lastPieces, if_neg hdot, onePiece_pieceText]

/-- Pieces are read back from their texts. -/
theorem readPieces_map {last : List Char → Option (List (Fin 65536))}
    (hlast : ∀ piece, last (pieceText piece) = some [piece]) (pieces : List (Fin 65536)) :
    readPieces last (pieces.map pieceText) = some pieces := by
  induction pieces with
  | nil => rfl
  | cons piece pieces ih =>
      cases pieces with
      | nil => exact hlast piece
      | cons next pieces =>
          rw [List.map_cons] at ih
          rw [List.map_cons, List.map_cons, readPieces, ih, hexPiece_pieceText]
          · rfl
          · simp

/-- What is joined by colons is found between them. -/
theorem tokens_intercalate (ts : List (List Char)) (h : ∀ token ∈ ts, IsToken token) :
    tokens ([':'].intercalate ts) = ts := by
  cases ts with
  | nil => rfl
  | cons token ts =>
      have hsplit : ([':'].intercalate (token :: ts)).splitOn ':' = token :: ts :=
        List.splitOn_intercalate ':' (fun token' htoken => (h token' htoken).2) (by simp)
      have hne : [':'].intercalate (token :: ts) ≠ [] := by
        intro heq
        rw [heq, List.splitOn_nil] at hsplit
        exact (h token List.mem_cons_self).1 (List.cons.inj hsplit).1.symm
      rw [tokens, if_neg hne, hsplit]

theorem tokens_joinPieces (pieces : List (Fin 65536)) :
    tokens (joinPieces pieces) = pieces.map pieceText := by
  refine tokens_intercalate _ fun token htoken => ?_
  obtain ⟨piece, -, rfl⟩ := List.mem_map.mp htoken
  exact isToken_pieceText piece

/-- Nothing is split within a token. -/
theorem splitGap_append {token : List Char} (htoken : ':' ∉ token) (rest : List Char) :
    splitGap (token ++ rest) =
      (splitGap rest).map fun parts => (token ++ parts.1, parts.2) := by
  induction token with
  | nil => simp
  | cons c token ih =>
      simp only [List.mem_cons, not_or] at htoken
      rw [List.cons_append, splitGap, ih htoken.2, Option.map_map]
      · rfl
      · intro rest' heq
        cases heq
        exact absurd rfl htoken.1

/-- A colon before a token is no gap. -/
theorem splitGap_colon {token : List Char} (htoken : IsToken token) (rest : List Char) :
    splitGap (':' :: (token ++ rest)) =
      (splitGap (token ++ rest)).map fun parts => (':' :: parts.1, parts.2) := by
  cases token with
  | nil => exact absurd rfl htoken.1
  | cons c token =>
      have hc : c ≠ ':' := by
        intro heq
        exact htoken.2 (heq ▸ List.mem_cons_self)
      rw [List.cons_append, splitGap]
      rintro rest' - heq
      exact hc (List.cons.inj heq).1

theorem joinPieces_cons_cons (piece next : Fin 65536) (pieces : List (Fin 65536)) :
    joinPieces (piece :: next :: pieces) =
      pieceText piece ++ ':' :: joinPieces (next :: pieces) := by
  simp [joinPieces]

/-- **There is no gap among joined pieces.** -/
theorem splitGap_joinPieces_append (pieces : List (Fin 65536)) (rest : List Char) :
    splitGap (joinPieces pieces ++ rest) =
      (splitGap rest).map fun parts => (joinPieces pieces ++ parts.1, parts.2) := by
  induction pieces with
  | nil => simp [joinPieces]
  | cons piece pieces ih =>
      cases pieces with
      | nil =>
          rw [joinPieces, List.map_cons, List.map_nil, List.intercalate_singleton]
          exact splitGap_append (isToken_pieceText piece).2 rest
      | cons next pieces =>
          obtain ⟨more, hmore⟩ : ∃ more, joinPieces (next :: pieces) = pieceText next ++ more := by
            cases pieces with
            | nil => exact ⟨[], by simp [joinPieces]⟩
            | cons _ pieces => exact ⟨_, joinPieces_cons_cons next _ pieces⟩
          rw [joinPieces_cons_cons, List.append_assoc, splitGap_append (isToken_pieceText piece).2,
            List.cons_append, hmore, List.append_assoc, splitGap_colon (isToken_pieceText next),
            ← List.append_assoc, ← hmore, ih, Option.map_map, Option.map_map]
          simp [Function.comp_def]

/-- **An IPv6 address is read back from its eight pieces.** -/
theorem parseIpv6_full (ip : Ipv6) : parseIpv6 (joinPieces ip.pieces) = some ip := by
  have hgap : splitGap (joinPieces ip.pieces) = none := by
    simpa [splitGap] using splitGap_joinPieces_append ip.pieces []
  simp only [parseIpv6, hgap, tokens_joinPieces, readPieces_map lastPieces_pieceText,
    Option.bind_some, ofPieces]
  exact dif_pos ip.length_pieces

/-- The gap is a run of two or more zeros. -/
theorem pieces_of_gap {ip : Ipv6} {i : ℕ} (h : ip.gap = some i) :
    2 ≤ zeroRun ip.pieces i ∧
      ip.pieces = ip.pieces.take i ++ List.replicate (zeroRun ip.pieces i) 0 ++
        ip.pieces.drop (i + zeroRun ip.pieces i) := by
  obtain ⟨-, hrun⟩ := Option.filter_eq_some_iff.mp h
  refine ⟨by simpa using hrun, ?_⟩
  have hzeros : (ip.pieces.drop i).takeWhile (· = 0) =
      List.replicate (zeroRun ip.pieces i) 0 := by
    refine List.eq_replicate_iff.mpr ⟨rfl, fun piece hpiece => ?_⟩
    simpa using List.mem_takeWhile_imp hpiece
  have hrest : (ip.pieces.drop i).dropWhile (· = 0) =
      ip.pieces.drop (i + zeroRun ip.pieces i) := by
    calc (ip.pieces.drop i).dropWhile (· = 0)
        = (((ip.pieces.drop i).takeWhile (· = 0)) ++ (ip.pieces.drop i).dropWhile (· = 0)).drop
            (zeroRun ip.pieces i) := List.drop_left.symm
      _ = ip.pieces.drop (i + zeroRun ip.pieces i) := by
          rw [List.takeWhile_append_dropWhile, List.drop_drop]
  rw [← hzeros, List.append_assoc, ← hrest, List.takeWhile_append_dropWhile,
    List.take_append_drop]

/-- Pieces that are left out are read as zeros. -/
theorem parseIpv6_gap {front back : List (Fin 65536)} {text : List Char} {m : ℕ} (hm : m ≠ 0)
    (hback : readPieces lastPieces (tokens text) = some back)
    (hlength : (front ++ List.replicate m 0 ++ back).length = 8) :
    parseIpv6 (joinPieces front ++ ':' :: ':' :: text) =
      ofPieces (front ++ List.replicate m 0 ++ back) := by
  have hmissing : 8 - (front.length + back.length) = m := by
    rw [List.length_append, List.length_append, List.length_replicate] at hlength
    omega
  have hsplit : splitGap (joinPieces front ++ ':' :: ':' :: text) =
      some (joinPieces front, text) := by
    simp [splitGap_joinPieces_append, splitGap]
  simp only [parseIpv6, hsplit, tokens_joinPieces, readPieces_map onePiece_pieceText, hback,
    hmissing]
  exact if_neg hm

/-- The pieces of an address make it up. -/
theorem ofPieces_pieces (ip : Ipv6) : ofPieces ip.pieces = some ip := dif_pos ip.length_pieces

/-- **An IPv6 address is read back from its text.** -/
theorem parseIpv6_toText (ip : Ipv6) : parseIpv6 ip.toText = some ip := by
  rw [Ipv6.toText]
  cases hgap : ip.gap with
  | none => exact parseIpv6_full ip
  | some i =>
      obtain ⟨hrun, hpieces⟩ := pieces_of_gap hgap
      have hback : readPieces lastPieces
          (tokens (joinPieces (ip.pieces.drop (i + zeroRun ip.pieces i)))) =
            some (ip.pieces.drop (i + zeroRun ip.pieces i)) := by
        rw [tokens_joinPieces, readPieces_map lastPieces_pieceText]
      have hread := parseIpv6_gap (by omega : zeroRun ip.pieces i ≠ 0) hback
        (hpieces ▸ ip.length_pieces)
      rw [← hpieces] at hread
      exact hread.trans (ofPieces_pieces ip)

/-! ### The characters of a text -/

theorem isSome_digitValue_of_hexPiece {cs : List Char} {piece : Fin 65536}
    (h : hexPiece cs = some piece) : ∀ c ∈ cs, (digitValue c).isSome := by
  rw [hexPiece] at h
  split_ifs at h
  cases hread : readDigits 16 cs with
  | none => simp [hread] at h
  | some n => exact isSome_digitValue_of_readDigits hread

/-- What may occur between two colons. -/
def Between (c : Char) : Prop := c = '.' ∨ (digitValue c).isSome

theorem between_of_onePiece (token : List Char) (pieces : List (Fin 65536))
    (h : onePiece token = some pieces) : ∀ c ∈ token, Between c := by
  obtain ⟨piece, hpiece, -⟩ := Option.map_eq_some_iff.mp h
  exact fun c hc => Or.inr (isSome_digitValue_of_hexPiece hpiece c hc)

theorem between_of_lastPieces (token : List Char) (pieces : List (Fin 65536))
    (h : lastPieces token = some pieces) : ∀ c ∈ token, Between c := by
  rw [lastPieces] at h
  split_ifs at h
  · obtain ⟨ip, hip, -⟩ := Option.map_eq_some_iff.mp h
    exact mem_of_parseIpv4 hip
  · exact between_of_onePiece token pieces h

theorem between_of_readPieces {last : List Char → Option (List (Fin 65536))}
    (hlast : ∀ token pieces, last token = some pieces → ∀ c ∈ token, Between c)
    {tokens : List (List Char)} {pieces : List (Fin 65536)}
    (h : readPieces last tokens = some pieces) : ∀ token ∈ tokens, ∀ c ∈ token, Between c := by
  fun_induction readPieces last tokens generalizing pieces with
  | case1 => simp
  | case2 token =>
      intro token' htoken
      rw [List.mem_singleton.mp htoken]
      exact hlast token pieces h
  | case3 token tokens hne ih =>
      cases hpiece : hexPiece token with
      | none => simp [hpiece] at h
      | some piece =>
          cases hrest : readPieces last tokens with
          | none => simp [hrest] at h
          | some rest =>
              intro token' htoken
              rcases List.mem_cons.mp htoken with rfl | htoken
              · exact fun c hc => Or.inr (isSome_digitValue_of_hexPiece hpiece c hc)
              · exact ih hrest token' htoken

/-- A character of a text that is read in pieces is a colon or lies between colons. -/
theorem mem_of_readPieces {last : List Char → Option (List (Fin 65536))}
    (hlast : ∀ token pieces, last token = some pieces → ∀ c ∈ token, Between c)
    {text : List Char} {pieces : List (Fin 65536)}
    (h : readPieces last (tokens text) = some pieces) : ∀ c ∈ text, c = ':' ∨ Between c := by
  intro c hc
  have hsplit : tokens text = text.splitOn ':' := if_neg (List.ne_nil_of_mem hc)
  rcases mem_splitOn ':' hc with hcolon | ⟨token, htoken, hmem⟩
  · exact Or.inl hcolon
  · rw [← hsplit] at htoken
    exact Or.inr (between_of_readPieces hlast h token htoken c hmem)

theorem splitGap_eq_some {text : List Char} {parts : List Char × List Char}
    (h : splitGap text = some parts) : text = parts.1 ++ ':' :: ':' :: parts.2 := by
  fun_induction splitGap text generalizing parts with
  | case1 => cases h
  | case2 rest =>
      cases h
      rfl
  | case3 c rest hne ih =>
      obtain ⟨parts', hparts', rfl⟩ := Option.map_eq_some_iff.mp h
      rw [ih hparts']
      rfl

/-- The text of an IPv6 address has only digits, dots and colons. -/
theorem mem_of_parseIpv6 {text : List Char} {ip : Ipv6} (h : parseIpv6 text = some ip) :
    ∀ c ∈ text, c = ':' ∨ Between c := by
  rw [parseIpv6] at h
  split at h
  next =>
    obtain ⟨pieces, hpieces, -⟩ := Option.bind_eq_some_iff.mp h
    exact mem_of_readPieces between_of_lastPieces hpieces
  next front back hgap =>
    split at h
    next fronts backs hfronts hbacks =>
      intro c hc
      rw [splitGap_eq_some hgap] at hc
      simp only [List.mem_append, List.mem_cons] at hc
      rcases hc with hc | hc | hc | hc
      · exact mem_of_readPieces between_of_onePiece hfronts c hc
      · exact Or.inl hc
      · exact Or.inl hc
      · exact mem_of_readPieces between_of_lastPieces hbacks c hc
    next => cases h

/-- There is a colon in the text of an IPv6 address. -/
theorem colon_mem_of_parseIpv6 {text : List Char} {ip : Ipv6} (h : parseIpv6 text = some ip) :
    ':' ∈ text := by
  by_contra hcolon
  have hgap : splitGap text = none := by
    simpa [splitGap] using splitGap_append hcolon []
  have htokens : tokens text = [] ∨ tokens text = [text] := by
    rw [tokens]
    split_ifs
    · exact Or.inl rfl
    · exact Or.inr (List.splitOn_eq_singleton hcolon)
  -- one token makes two pieces at most
  have hfew : ∀ pieces, readPieces lastPieces (tokens text) = some pieces → pieces.length ≤ 2 := by
    intro pieces hpieces
    rcases htokens with htokens | htokens
    · rw [htokens] at hpieces
      cases hpieces
      simp
    · rw [htokens, readPieces, lastPieces] at hpieces
      split_ifs at hpieces
      · obtain ⟨ip, -, rfl⟩ := Option.map_eq_some_iff.mp hpieces
        exact le_rfl
      · obtain ⟨piece, -, rfl⟩ := Option.map_eq_some_iff.mp hpieces
        simp
  rw [parseIpv6, hgap] at h
  obtain ⟨pieces, hpieces, hof⟩ := Option.bind_eq_some_iff.mp h
  rw [ofPieces] at hof
  split_ifs at hof with hlength
  have := hfew pieces hpieces
  omega

/-! ## Either version -/

/-- An IP address. -/
inductive Ip
  | v4 (ip : Ipv4)
  | v6 (ip : Ipv6)
  deriving DecidableEq, Repr

/-- The address with a text, of either version. -/
def parseIp (text : List Char) : Option Ip :=
  match parseIpv4 text with
  | some ip => some (.v4 ip)
  | none => (parseIpv6 text).map .v6

/-- A text in brackets is no address. -/
theorem parseIp_bracket (text : List Char) : parseIp ('[' :: text) = none := by
  have hdigit : digitValue '[' = none := by decide
  have hv4 : parseIpv4 ('[' :: text) = none := by
    by_contra hsome
    obtain ⟨ip, hip⟩ := Option.ne_none_iff_exists'.mp hsome
    have := mem_of_parseIpv4 hip '[' List.mem_cons_self
    simp [hdigit] at this
  have hv6 : parseIpv6 ('[' :: text) = none := by
    by_contra hsome
    obtain ⟨ip, hip⟩ := Option.ne_none_iff_exists'.mp hsome
    have := mem_of_parseIpv6 hip '[' List.mem_cons_self
    simp [Between, hdigit] at this
  rw [parseIp, hv4, hv6]
  rfl

end Proxinator.Lib
