import Proxinator.Dns
import Proxinator.Lib.IpForms

/-!
# Bogus verdicts and the spelling of an address

Two records may name one host: an address and its IPv4-mapped form, or two texts of one IPv6
address. `isBogusIP` looks for the text in one list and for the name of the range in another.
The range is that of the address, and for a mapped address always `ipv4Mapped`, so the verdict
on one host can differ.

## Main results

* `isBogusIP_text_iff` — the verdict on a text of an address.
* `isBogusIP_agrees_iff` — when two texts of one host get the same.
-/

namespace Proxinator.Dns

open Lib

/-- **What ipaddr.js does with addresses**: it reads all their texts, and the range is that of the
address, which for a mapped one is `ipv4Mapped`. -/
structure Ranges (range : String → Option String) (rangeOf : Ip → String) : Prop where
  range_eq : ∀ text ip, parseIp text.toList = some ip → range text = some (rangeOf ip)
  mapped_eq : ∀ ip : Ipv6, ip.Mapped → rangeOf (.v6 ip) = "ipv4Mapped"

/-- The address is listed with this text. -/
def Listed (bogusIPs : Option (List String)) (text : String) : Prop :=
  ∃ ips, bogusIPs = some ips ∧ text ∈ ips

/-- The mapped form of an address is a text of its mapped address. -/
theorem parseIp_mapped (ip : Ipv4) {text : String}
    (h : text.toList = "::ffff:".toList ++ ip.toText) :
    parseIp text.toList = some (.v6 ip.mapped) := by
  rw [h]
  exact parseIp_of_parseIpv6 (parseIpv6_mapped ip)

variable {range : String → Option String} {rangeOf : Ip → String} {bogusRanges : List String}
  {bogusIPs : Option (List String)}

/-- **The verdict on a text of an address.** -/
theorem isBogusIP_text_iff (h : Ranges range rangeOf) {text : String} {ip : Ip}
    (htext : parseIp text.toList = some ip) :
    isBogusIP range (.text text) bogusRanges bogusIPs = true ↔
      Listed bogusIPs text ∨ rangeOf ip ∈ bogusRanges := by
  rw [isBogusIP, h.range_eq text ip htext, Listed]
  cases bogusIPs with
  | none => simp
  | some ips => simp

/-- Two verdicts. -/
theorem isBogusIP_eq_iff (h : Ranges range rangeOf) (bogusRanges : List String)
    (bogusIPs : Option (List String)) {text text' : String} {ip ip' : Ip}
    (htext : parseIp text.toList = some ip) (htext' : parseIp text'.toList = some ip') :
    isBogusIP range (.text text) bogusRanges bogusIPs =
        isBogusIP range (.text text') bogusRanges bogusIPs ↔
      ((Listed bogusIPs text ∨ rangeOf ip ∈ bogusRanges) ↔
        (Listed bogusIPs text' ∨ rangeOf ip' ∈ bogusRanges)) := by
  rw [Bool.eq_iff_iff, isBogusIP_text_iff h htext, isBogusIP_text_iff h htext']

/-- **When the verdict is the same for two texts of one host.** For an IPv4 address and its
mapped form that takes a hit for both in one of the lists, or for none; for two texts of an IPv6
address, a bogus range or a list that has both or none. -/
theorem isBogusIP_agrees_iff (h : Ranges range rangeOf) (bogusRanges : List String)
    (bogusIPs : Option (List String)) :
    (∀ (ip : Ipv4) (text text' : String), parseIp text.toList = some (.v4 ip) →
      parseIp text'.toList = some (.v6 ip.mapped) →
      (isBogusIP range (.text text) bogusRanges bogusIPs =
          isBogusIP range (.text text') bogusRanges bogusIPs ↔
        (Listed bogusIPs text ∨ rangeOf (.v4 ip) ∈ bogusRanges) ∧
            (Listed bogusIPs text' ∨ "ipv4Mapped" ∈ bogusRanges) ∨
          ¬ (Listed bogusIPs text ∨ rangeOf (.v4 ip) ∈ bogusRanges) ∧
            ¬ (Listed bogusIPs text' ∨ "ipv4Mapped" ∈ bogusRanges))) ∧
    ∀ (ip : Ipv6) (text text' : String), parseIp text.toList = some (.v6 ip) →
      parseIp text'.toList = some (.v6 ip) →
      (isBogusIP range (.text text) bogusRanges bogusIPs =
          isBogusIP range (.text text') bogusRanges bogusIPs ↔
        rangeOf (.v6 ip) ∈ bogusRanges ∨ (Listed bogusIPs text ↔ Listed bogusIPs text')) := by
  constructor
  · intro ip text text' htext htext'
    have hmapped : rangeOf (.v6 ip.mapped) = "ipv4Mapped" := h.mapped_eq ip.mapped rfl
    have heq := isBogusIP_eq_iff h bogusRanges bogusIPs htext htext'
    rw [hmapped] at heq
    exact heq.trans iff_iff_and_or_not_and_not
  · intro ip text text' htext htext'
    rw [isBogusIP_eq_iff h bogusRanges bogusIPs htext htext']
    by_cases hrange : rangeOf (.v6 ip) ∈ bogusRanges
    · simp [hrange]
    · simp [hrange]

/-- The ranges of the addresses in `10.0.0.0/8` and of mapped addresses. -/
def rangeOfTen : Ip → String
  | .v4 ip => if ip.a = 10 then "private" else "unicast"
  | .v6 ip => if ip.Mapped then "ipv4Mapped" else "unicast"

theorem ranges_ten : Ranges (fun text => (parseIp text.toList).map rangeOfTen) rangeOfTen := by
  constructor
  · intro text ip htext
    rw [htext, Option.map_some]
  · intro ip hmapped
    exact if_pos hmapped

theorem isBogusIP_agrees_public :
    isBogusIP (fun text => (parseIp text.toList).map rangeOfTen) (.text "8.8.8.8")
        defaultBogusRanges (some defaultBogusIPs) =
      isBogusIP (fun text => (parseIp text.toList).map rangeOfTen) (.text "::ffff:8.8.8.8")
        defaultBogusRanges (some defaultBogusIPs) := by
  refine ((isBogusIP_agrees_iff ranges_ten _ _).1 ⟨8, 8, 8, 8⟩ "8.8.8.8" "::ffff:8.8.8.8"
    (by decide +kernel) (parseIp_mapped _ (by decide +kernel))).mpr (Or.inr ⟨?_, ?_⟩)
  · simp [Listed, defaultBogusIPs, defaultBogusRanges, rangeOfTen]
  · simp [Listed, defaultBogusIPs, defaultBogusRanges]

/-- **A private address is bogus, and its mapped form is not**, with the default lists. -/
theorem isBogusIP_mapped_private :
    let range := fun text : String => (parseIp text.toList).map rangeOfTen
    Ranges range rangeOfTen ∧ parseIp "10.0.0.1".toList = some (.v4 ⟨10, 0, 0, 1⟩) ∧
      parseIp "::ffff:10.0.0.1".toList = some (.v6 (Ipv4.mapped ⟨10, 0, 0, 1⟩)) ∧
      isBogusIP range (.text "10.0.0.1") defaultBogusRanges (some defaultBogusIPs) = true ∧
      isBogusIP range (.text "::ffff:10.0.0.1") defaultBogusRanges (some defaultBogusIPs) =
        false :=
  ⟨ranges_ten, by decide +kernel, parseIp_mapped _ (by decide +kernel), by decide +kernel,
    by decide +kernel⟩

end Proxinator.Dns
