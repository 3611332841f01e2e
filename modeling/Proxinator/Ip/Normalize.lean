import Proxinator.Ip
import Proxinator.Lib.IpForms

/-!
# Normalising the addresses of sockets

`normalizeAddress` and `normalizeFamily` look for the text `::ffff:` in front. All mapped
addresses are written so, and so are others: where the gap that the text leaves out is shorter
than five pieces and `ffff` stands behind it, as in `::ffff:0:a00:1`, the rest is cut off
as if it were an IPv4 address. Those are the only ones (`normalizes_iff`).
-/

namespace Proxinator

open Lib

/-- `net.isIP`, as the name of a family. -/
def familyOf (address : String) : Option String :=
  match parseIp address.toList with
  | some (.v4 _) => some "IPv4"
  | some (.v6 _) => some "IPv6"
  | none => none

/-- The text in which a socket reports an IPv6 address. -/
def socketAddress (ip : Ipv6) : String := String.ofList ip.ntop

/-- **An address is normalised as it should be.** -/
structure Normalizes (ip : Ipv6) : Prop where
  /-- A mapped address becomes the IPv4 address in its low 32 bits, -/
  mapped : ip.Mapped → normalizeAddress (socketAddress ip) = String.ofList ip.low.toText ∧
    normalizeFamily (some (socketAddress ip)) (some "IPv6") = some "IPv4"
  /-- any other stays as it is, -/
  unmapped : ¬ ip.Mapped → normalizeAddress (socketAddress ip) = socketAddress ip ∧
    normalizeFamily (some (socketAddress ip)) (some "IPv6") = some "IPv6"
  /-- and the family is always that of the address. -/
  agree : normalizeFamily (some (socketAddress ip)) (some "IPv6") =
    familyOf (normalizeAddress (socketAddress ip))

variable {ip : Ipv6}

theorem mappedMark_isPrefixOf_iff (text : List Char) :
    mappedMark.isPrefixOf text = true ↔
      ∃ rest, text = ':' :: ':' :: (pieceText 0xffff ++ ':' :: rest) := by
  have hmark : mappedMark = ':' :: ':' :: (pieceText 0xffff ++ [':']) := by decide
  rw [hmark, List.isPrefixOf_iff_prefix]
  constructor
  · rintro ⟨rest, rfl⟩
    exact ⟨rest, by simp⟩
  · rintro ⟨rest, rfl⟩
    exact ⟨rest, by simp⟩

/-- The text test sees how the text begins. -/
theorem isPrefixOf_socketAddress :
    mappedMark.isPrefixOf (socketAddress ip).toList = true ↔ ip.BeginsMarked := by
  rw [socketAddress, String.toList_ofList, mappedMark_isPrefixOf_iff, ntop_begins_iff]

/-- What is cut off, and the family then. -/
theorem normalize_marked {rest : List Char}
    (h : ip.ntop = ':' :: ':' :: (pieceText 0xffff ++ ':' :: rest)) :
    normalizeAddress (socketAddress ip) = String.ofList rest ∧
      normalizeFamily (some (socketAddress ip)) (some "IPv6") = some "IPv4" := by
  have hbegins : mappedMark.isPrefixOf (socketAddress ip).toList = true :=
    isPrefixOf_socketAddress.mpr ((ntop_begins_iff ip).mp ⟨rest, h⟩)
  have hmark : ip.ntop = mappedMark ++ rest := h
  rw [normalizeAddress, normalizeFamily]
  constructor
  · rw [if_pos hbegins, socketAddress, String.toList_ofList, hmark, List.drop_left]
  · exact if_pos hbegins

theorem normalize_unmarked (h : ¬ ip.BeginsMarked) :
    normalizeAddress (socketAddress ip) = socketAddress ip ∧
      normalizeFamily (some (socketAddress ip)) (some "IPv6") = some "IPv6" := by
  rw [← isPrefixOf_socketAddress] at h
  exact ⟨if_neg h, if_neg h⟩

theorem familyOf_socketAddress (ip : Ipv6) : familyOf (socketAddress ip) = some "IPv6" := by
  rw [familyOf, socketAddress, String.toList_ofList, parseIp_of_parseIpv6 (parseIpv6_ntop ip)]

theorem familyOf_toText (ip : Ipv4) : familyOf (String.ofList ip.toText) = some "IPv4" := by
  rw [familyOf, String.toList_ofList, parseIp, parseIpv4_toText]

/-- A mapped address is written as the mark and an IPv4 address. -/
theorem ntop_of_mapped (h : ip.Mapped) :
    ip.ntop = ':' :: ':' :: (pieceText 0xffff ++ ':' :: ip.low.toText) := by
  obtain ⟨hgap, hrun, hpiece⟩ := (mapped_iff ip).mp h
  simp only [Ipv6.ntop, hgap, hrun, hpiece]
  rfl

/-- **Which addresses are normalised as they should be**: all but those that are written with a
gap of two to four pieces in front and `ffff` behind it. -/
theorem normalizes_iff (ip : Ipv6) :
    Normalizes ip ↔
      ¬ (ip.gap = some 0 ∧ zeroRun ip.pieces 0 < 5 ∧
        ip.pieces[zeroRun ip.pieces 0]? = some 0xffff) := by
  by_cases hmapped : ip.Mapped
  · obtain ⟨-, hrun, -⟩ := (mapped_iff ip).mp hmapped
    obtain ⟨haddress, hfamily⟩ := normalize_marked (ntop_of_mapped hmapped)
    refine iff_of_true ⟨fun _ => ⟨haddress, hfamily⟩, fun h => absurd hmapped h, ?_⟩ (by omega)
    rw [hfamily, haddress, familyOf_toText]
  · by_cases hbegins : ip.BeginsMarked
    · obtain ⟨hgap, hle, hpiece⟩ := hbegins
      have hne : zeroRun ip.pieces 0 ≠ 5 := by
        intro hrun
        exact hmapped ((mapped_iff ip).mpr ⟨hgap, hrun, hrun ▸ hpiece⟩)
      refine iff_of_false (fun h => ?_) (not_not.mpr ⟨hgap, by omega, hpiece⟩)
      -- the address has lost what it begins with
      obtain ⟨rest, hntop⟩ := (ntop_begins_iff ip).mpr ⟨hgap, hle, hpiece⟩
      have hsame := (normalize_marked hntop).1.symm.trans (h.unmapped hmapped).1
      have hlength := congrArg (fun address => address.toList.length) hsame
      simp only [socketAddress, String.toList_ofList, hntop, List.length_cons, List.length_append]
        at hlength
      omega
    · obtain ⟨haddress, hfamily⟩ := normalize_unmarked hbegins
      refine iff_of_true ⟨fun h => absurd h hmapped, fun _ => ⟨haddress, hfamily⟩, ?_⟩ ?_
      · rw [hfamily, haddress, familyOf_socketAddress]
      · rintro ⟨hgap, hlt, hpiece⟩
        exact hbegins ⟨hgap, by omega, hpiece⟩

/-- **An IPv4-translated address**, `0:0:0:0:ffff:0:a00:1`. -/
theorem not_normalizes_translated :
    let ip : Ipv6 := ⟨[0, 0, 0, 0, 0xffff, 0, 0xa00, 1], rfl⟩
    ¬ Normalizes ip ∧ ¬ ip.Mapped ∧ socketAddress ip = "::ffff:0:a00:1" ∧
      normalizeAddress (socketAddress ip) = "0:a00:1" ∧
      normalizeFamily (some (socketAddress ip)) (some "IPv6") = some "IPv4" ∧
      familyOf (normalizeAddress (socketAddress ip)) = none := by
  intro ip
  have hsocket : socketAddress ip = "::ffff:0:a00:1" := by decide +kernel
  have haddress : normalizeAddress "::ffff:0:a00:1" = "0:a00:1" := by decide +kernel
  have hfamily : familyOf "0:a00:1" = none := by decide +kernel
  have hmapped : ¬ ip.Mapped := by decide
  rw [hsocket, haddress]
  refine ⟨fun h => ?_, hmapped, rfl, rfl, by decide +kernel, hfamily⟩
  have hsame := (h.unmapped hmapped).1
  rw [hsocket, haddress] at hsame
  exact absurd hsame (by decide)

end Proxinator
