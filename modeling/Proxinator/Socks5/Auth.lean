import Proxinator.Socks5

/-!
# The username/password message

A message is a version byte and two fields, each behind a byte with its length. `parseAuth` has
one check for the whole message, that it is at least as long as one with two fields of one byte;
so it also takes a message with an empty field, if the other field or what follows makes up for
it. `accepts_and_hands_iff` says for which buffers that is so.

## Main results

* `parseAuth_eq_some` — what is accepted, and as what.
* `accepts_and_hands_iff` — the buffers that are treated as they should be.
-/

namespace Proxinator.Socks5

open Lib

/-! ## The message -/

/-- The buffer begins with a message with these fields. -/
def BeginsWith (data username password : Bytes) : Prop :=
  username.length < 256 ∧ password.length < 256 ∧
    ∃ version rest,
      data = version :: (prefixed 1 username ++ (prefixed 1 password ++ rest))

/-- Its fields are determined by the buffer. -/
theorem BeginsWith.unique {data username password username' password' : Bytes}
    (h : BeginsWith data username password) (h' : BeginsWith data username' password') :
    username = username' ∧ password = password' := by
  obtain ⟨husername, hpassword, version, rest, rfl⟩ := h
  obtain ⟨husername', hpassword', version', rest', hdata⟩ := h'
  rw [List.cons_eq_cons] at hdata
  obtain ⟨rfl, hfields⟩ := prefixed_append_inj (by simpa using husername)
    (by simpa using husername') hdata.2
  obtain ⟨rfl, -⟩ := prefixed_append_inj (by simpa using hpassword) (by simpa using hpassword')
    hfields
  exact ⟨rfl, rfl⟩

theorem prefixed_one {field : Bytes} (h : field.length < 256) :
    prefixed 1 field = UInt8.ofNat field.length :: field := by
  simp [prefixed, uintBE, Nat.mod_eq_of_lt h]

/-- A message is accepted with its fields, if it has the minimum size. -/
theorem parseAuth_message (version : UInt8) {username password : Bytes} (rest : Bytes)
    (husername : username.length < 256) (hpassword : password.length < 256)
    (hsize : 2 ≤ username.length + password.length + rest.length) :
    parseAuth (version :: (prefixed 1 username ++ (prefixed 1 password ++ rest))) =
      some ⟨utf8Decode username, utf8Decode password⟩ := by
  obtain ⟨data, hdata⟩ : ∃ data, data = version :: (prefixed 1 username ++
      (prefixed 1 password ++ rest)) := ⟨_, rfl⟩
  have hlength : data.length = 3 + username.length + password.length + rest.length := by
    simp [hdata]
    omega
  have hulen : data[1].toNat = username.length := by
    simp [hdata, prefixed_one husername, Nat.mod_eq_of_lt husername]
  have hplen : data[2 + username.length].toNat = password.length := by
    have hread : data[2 + username.length]? = some (UInt8.ofNat password.length) := by
      rw [hdata, prefixed_one husername, prefixed_one hpassword]
      simp [Nat.add_comm 2]
    have hbyte : data[2 + username.length] = UInt8.ofNat password.length := by
      rw [List.getElem?_eq_getElem (by omega)] at hread
      exact Option.some.inj hread
    rw [hbyte]
    simp [Nat.mod_eq_of_lt hpassword]
  have hname : subarray data 2 (2 + username.length) = username := by
    rw [hdata]
    exact subarray_prefixed (n := 1) [version] username _ rfl rfl
  have hword : subarray data (3 + username.length) (3 + username.length + password.length) =
      password := by
    have hfields : data = (version :: prefixed 1 username) ++ (prefixed 1 password ++ rest) := by
      rw [hdata]
      rfl
    rw [hfields]
    exact subarray_prefixed (n := 1) _ password rest (by simp; omega) rfl
  rw [← hdata, parseAuth, dif_neg (by simp only [minAuthSize]; omega)]
  simp only [hulen]
  rw [dif_neg (by omega)]
  simp only [hplen, hname, hword]
  rw [if_neg (by omega)]

/-- What is accepted begins with a message. -/
theorem beginsWith_of_parseAuth {data : Bytes} {credentials : Credentials}
    (h : parseAuth data = some credentials) :
    ∃ username password, BeginsWith data username password := by
  rw [parseAuth] at h
  split at h
  next => cases h
  next hsize =>
    simp only at h
    split at h
    next => cases h
    next huser =>
      split at h
      next => cases h
      next hpass =>
        have hulen := data[1].toNat_lt
        have hplen := data[2 + data[1].toNat].toNat_lt
        refine ⟨subarray data 2 (2 + data[1].toNat),
          subarray data (3 + data[1].toNat) (3 + data[1].toNat + data[2 + data[1].toNat].toNat),
          ?_, ?_, data[0], data.drop (3 + data[1].toNat + data[2 + data[1].toNat].toNat), ?_⟩
        · simp only [length_subarray]
          omega
        · simp only [length_subarray]
          omega
        · have hreadUlen : data[1]? = some data[1] := List.getElem?_eq_getElem _
          have husername := drop_eq_prefixed hreadUlen
            (show 1 + 1 + data[1].toNat ≤ data.length by omega)
          have hreadPlen : data[2 + data[1].toNat]? = some data[2 + data[1].toNat] :=
            List.getElem?_eq_getElem _
          have hpassword := drop_eq_prefixed hreadPlen
            (show 2 + data[1].toNat + 1 + data[2 + data[1].toNat].toNat ≤ data.length by omega)
          have hbehind : 2 + data[1].toNat + 1 = 3 + data[1].toNat := by omega
          rw [hbehind] at hpassword
          calc data = data[0] :: data.drop 1 := by
                rw [List.getElem_cons_drop]
                rfl
            _ = _ := by rw [husername, hpassword]

/-- **A buffer is accepted exactly when it begins with a message and has the minimum size.** -/
theorem parseAuth_eq_some {data : Bytes} {credentials : Credentials} :
    parseAuth data = some credentials ↔
      minAuthSize ≤ data.length ∧ ∃ username password, BeginsWith data username password ∧
        credentials = ⟨utf8Decode username, utf8Decode password⟩ := by
  constructor
  · intro h
    have hsize : minAuthSize ≤ data.length := by
      by_contra hshort
      rw [parseAuth, dif_pos (Nat.lt_of_not_le hshort)] at h
      cases h
    obtain ⟨username, password, hbegins⟩ := beginsWith_of_parseAuth h
    refine ⟨hsize, username, password, hbegins, ?_⟩
    obtain ⟨husername, hpassword, version, rest, rfl⟩ := hbegins
    simp only [minAuthSize, List.length_cons, List.length_append, length_prefixed] at hsize
    rw [parseAuth_message version rest husername hpassword (by omega)] at h
    exact (Option.some.inj h).symm
  · rintro ⟨hsize, username, password, ⟨husername, hpassword, version, rest, rfl⟩, rfl⟩
    simp only [minAuthSize, List.length_cons, List.length_append, length_prefixed] at hsize
    exact parseAuth_message version rest husername hpassword (by omega)

/-! ## What is handed to `authenticate` -/

/-- The handler calls `authenticate` at most with what was parsed. -/
theorem onAuth_authenticate {opts : Options} {answer : AuthInfo → Answer} {info : SocketInfo}
    {data : Bytes} {s : Socket} {asked : AuthInfo}
    (h : .authenticate asked ∈ (Socket.afterHandlers (s.onAuth opts answer info data)).log) :
    .authenticate asked ∈ s.log ∨
      ∃ credentials, parseAuth data = some credentials ∧
        asked = authInfo (some credentials) info := by
  rw [Socket.onAuth] at h
  cases hparse : parseAuth data with
  | none =>
      simp only [hparse, Socket.afterHandlers, Socket.endSocket, Socket.write, Socket.act] at h
      exact Or.inl (by simpa using h)
  | some credentials =>
      simp only [hparse, Socket.authenticate] at h
      by_cases hauthenticate : opts.authenticate = true
      · rw [if_pos hauthenticate] at h
        cases hanswer : answer (authInfo (some credentials) info) with
        | throws =>
            simp only [hanswer, Socket.afterHandlers, Socket.act] at h
            simpa using h
        | returns =>
            simp only [hanswer, Socket.afterHandlers, Socket.act] at h
            simpa using h
      · rw [if_neg hauthenticate] at h
        exact Or.inl h

/-- **The buffer is accepted exactly if it begins with a message of two nonempty fields**, and
with the text of these. -/
def AcceptsExactly (data : Bytes) : Prop :=
  ∀ credentials, parseAuth data = some credentials ↔
    ∃ username password, BeginsWith data username password ∧ username ≠ [] ∧ password ≠ [] ∧
      credentials = ⟨utf8Decode username, utf8Decode password⟩

/-- **No empty user name or password is handed to `authenticate`** by the handler that is given
the buffer. -/
def HandsNoEmpty (data : Bytes) : Prop :=
  ∀ (opts : Options) (answer : AuthInfo → Answer) (info : SocketInfo) (s : Socket)
    (asked : AuthInfo),
    .authenticate asked ∈ (Socket.afterHandlers (s.onAuth opts answer info data)).log →
      .authenticate asked ∈ s.log ∨ asked.username ≠ some "" ∧ asked.password ≠ some ""

theorem acceptsExactly_iff (data : Bytes) :
    AcceptsExactly data ↔
      ∀ username password, BeginsWith data username password → minAuthSize ≤ data.length →
        username ≠ [] ∧ password ≠ [] := by
  constructor
  · intro h username password hbegins hsize
    obtain ⟨username', password', hbegins', husername, hpassword, -⟩ :=
      (h _).mp (parseAuth_eq_some.mpr ⟨hsize, username, password, hbegins, rfl⟩)
    obtain ⟨rfl, rfl⟩ := hbegins.unique hbegins'
    exact ⟨husername, hpassword⟩
  · intro h credentials
    rw [parseAuth_eq_some]
    constructor
    · rintro ⟨hsize, username, password, hbegins, hcredentials⟩
      obtain ⟨husername, hpassword⟩ := h username password hbegins hsize
      exact ⟨username, password, hbegins, husername, hpassword, hcredentials⟩
    · rintro ⟨username, password, hbegins, husername, hpassword, hcredentials⟩
      refine ⟨?_, username, password, hbegins, hcredentials⟩
      obtain ⟨-, -, version, rest, rfl⟩ := hbegins
      have hname := List.length_pos_of_ne_nil husername
      have hword := List.length_pos_of_ne_nil hpassword
      simp only [minAuthSize, List.length_cons, List.length_append, length_prefixed]
      omega

theorem AcceptsExactly.handsNoEmpty {data : Bytes} (h : AcceptsExactly data) :
    HandsNoEmpty data := by
  intro opts answer info s asked hasked
  rcases onAuth_authenticate hasked with hbefore | ⟨credentials, hparse, rfl⟩
  · exact Or.inl hbefore
  · obtain ⟨username, password, -, husername, hpassword, rfl⟩ := (h credentials).mp hparse
    refine Or.inr ⟨?_, ?_⟩
    · simpa [authInfo, utf8Decode_eq_empty] using husername
    · simpa [authInfo, utf8Decode_eq_empty] using hpassword

/-- **Exactly the credentials of two nonempty fields are accepted, and none with an empty one is
handed on, unless the buffer begins with a message that has one and is at least five bytes
long.** -/
theorem accepts_and_hands_iff (data : Bytes) :
    (AcceptsExactly data ∧ HandsNoEmpty data) ↔
      ∀ username password, BeginsWith data username password → minAuthSize ≤ data.length →
        username ≠ [] ∧ password ≠ [] := by
  rw [← acceptsExactly_iff]
  exact ⟨And.left, fun h => ⟨h, h.handsNoEmpty⟩⟩

/-- A message without a user name, with the password `p` and one more byte. -/
def noUsername : Bytes := [1, 0, 1, 0x70, 0]

/-- It is accepted, and handed on. -/
theorem not_accepts_noUsername :
    parseAuth noUsername = some ⟨"", "p"⟩ ∧
      ¬ AcceptsExactly noUsername ∧ ¬ HandsNoEmpty noUsername := by
  have hparse : parseAuth noUsername = some ⟨"", "p"⟩ := by decide +kernel
  have hbegins : BeginsWith noUsername [] [0x70] :=
    ⟨by decide, by decide, 1, [0], by decide⟩
  refine ⟨hparse, ?_, ?_⟩
  · intro h
    have hfields := (acceptsExactly_iff noUsername).mp h [] [0x70] hbegins (by decide)
    exact hfields.1 rfl
  · intro h
    have hasked := h ⟨true⟩ (fun _ => .returns) ⟨none, none, none, none⟩
      (Socket.accepted ⟨none, none, none, none⟩)
      (authInfo (some ⟨"", "p"⟩) ⟨none, none, none, none⟩)
    rw [Socket.onAuth, hparse] at hasked
    have hempty := hasked (by simp [Socket.authenticate, Socket.afterHandlers, Socket.act])
    rcases hempty with hbefore | ⟨husername, -⟩
    · cases hbefore
    · exact husername rfl

end Proxinator.Socks5
