import Proxinator.Client
import Proxinator.Forward
import Proxinator.Lib.Base64
import Proxinator.Lib.Lines
import Proxinator.Url.Component

/-!
# Basic credentials from client to server

The forward client decodes the user information of the proxy's URL, joins user name and
password with a colon and sends the base64 text of that in a header. `getAuth` of the
forward server takes the header apart at its spaces and what it decodes at the first colon. For
every user name without a colon and every password that gives them back (`getAuth_sent`): the
header has one more space than the base64 text, and the first colon is the one that the client
put in.
-/

namespace Proxinator.Forward

open Lib

/-- `req.headers[name]`: Node gives the names of the headers in lower case. -/
def receivedHeader (headers : Headers) (name : String) : Option String :=
  (headers.find? fun header => header.1.toLower = name).map Prod.snd

/-- What stands in a URL as user name or password after the text was put there with
`encodeURIComponent`. -/
def placed (text : String) : String :=
  String.ofList (percentEncode userinfoSet (encodeURIComponent text).toList)

theorem placed_eq (text : String) : placed text = encodeURIComponent text := by
  rw [placed, percentEncode_encodeURIComponent, String.ofList_toList]

/-! ## The header -/

/-- A header comes apart into its type and what follows the first space. -/
theorem splitOn_basic (value : String) :
    ("Basic " ++ value).toList.splitOn ' ' = "Basic".toList :: value.toList.splitOn ' ' := by
  have htype : ' ' ∉ "Basic".toList := by decide
  rw [String.toList_append]
  exact List.splitOn_append_cons_self_of_not_mem htype value.toList

/-- The first colon. -/
theorem findIdx?_colon {username : List Char} (h : ':' ∉ username) (password : List Char) :
    (username ++ ':' :: password).findIdx? (· = ':') = some username.length := by
  have hnone : username.findIdx? (· = ':') = none := by
    rw [List.findIdx?_eq_none_iff]
    intro c hc
    have hne : c ≠ ':' := fun heq => h (heq ▸ hc)
    simpa using hne
  rw [List.findIdx?_append, hnone]
  simp [List.findIdx?_cons]

/-- **`getAuth` on a Basic header.** -/
theorem getAuth_basic (decode64 : String → Bytes) {value username password : String}
    (hvalue : decode64 value = utf8Encode (username ++ ":" ++ password))
    (hcolon : ':' ∉ username.toList) :
    getAuth decode64 (some ("Basic " ++ value)) = some ⟨username, password⟩ := by
  have hne : "Basic " ++ value ≠ "" := by
    intro heq
    have hlength := congrArg String.length heq
    simp [String.length_append] at hlength
  have htext : (username ++ ":" ++ password).toList = username.toList ++ ':' :: password.toList := by
    simp
  have htake : (username.toList ++ ':' :: password.toList).take username.toList.length =
      username.toList := List.take_left
  have hdrop : (username.toList ++ ':' :: password.toList).drop (username.toList.length + 1) =
      password.toList := by
    rw [← List.drop_drop, List.drop_left]
    rfl
  simp only [getAuth, if_neg hne, splitOn_basic, List.headD_cons, if_true, List.tail_cons,
    List.intercalate_splitOn, String.ofList_toList, hvalue, utf8Decode_utf8Encode, htext,
    findIdx?_colon hcolon, htake, hdrop]

variable {Socket Lookup : Type*}

/-- **Basic credentials survive the trip from forward client to forward server.** -/
theorem getAuth_sent (encode64 : String → String) (decode64 : String → Bytes)
    (hcodec : ∀ text, decode64 (encode64 text) = utf8Encode text) (username password : String)
    (hname : username ≠ "") (hcolon : ':' ∉ username.toList) (proxy host : Url)
    (husername : proxy.username = placed username) (hpassword : proxy.password = placed password)
    (opts : Client.Options Socket Lookup) :
    ∃ request, Client.requestOptions encode64 proxy host opts = .ok request ∧
      getAuth decode64 (receivedHeader request.headers "proxy-authorization") =
        some ⟨username, password⟩ := by
  have hcredentials : Client.credentials proxy = .ok (some (username, password)) := by
    have hfilled : proxy.username ≠ "" := by
      rwa [husername, placed_eq, ne_eq, encodeURIComponent_eq_empty]
    rw [Client.credentials, if_neg hfilled, husername, hpassword, placed_eq, placed_eq,
      decodeURIComponent_encodeURIComponent, decodeURIComponent_encodeURIComponent]
  refine ⟨_, by rw [Client.requestOptions, hcredentials]; rfl, ?_⟩
  have hheader : receivedHeader ([("host", host.host), ("connection", "keep-alive"),
      ("keep-alive", "timeout=3600")] ++ [("Proxy-Authorization",
        "Basic " ++ encode64 (username ++ ":" ++ password))]) "proxy-authorization" =
      some ("Basic " ++ encode64 (username ++ ":" ++ password)) := by
    have hlower : "host".toLower ≠ "proxy-authorization" ∧
        "connection".toLower ≠ "proxy-authorization" ∧
        "keep-alive".toLower ≠ "proxy-authorization" ∧
        "Proxy-Authorization".toLower = "proxy-authorization" := by
      decide +kernel
    simp [receivedHeader, hlower]
  exact (congrArg (getAuth decode64) hheader).trans (getAuth_basic decode64 (hcodec _) hcolon)

/-- Base64 as `Buffer` has it. -/
def buffer64 (text : String) : String := String.ofList (base64Encode (utf8Encode text))

theorem getAuth_sent_spaces :
    ∃ request : Client.RequestOptions Unit Unit,
      Client.requestOptions buffer64
        ⟨"http:", placed "user", placed "pa:ss wörd", "proxy.test", none, "/", "", ""⟩
        ⟨"tcp:", "", "", "a.test", none, "", "", ""⟩ ⟨none, none, none⟩ = .ok request ∧
      getAuth (fun text => base64Decode text.toList)
        (receivedHeader request.headers "proxy-authorization") =
          some ⟨"user", "pa:ss wörd"⟩ := by
  have hcodec : ∀ text, base64Decode (buffer64 text).toList = utf8Encode text := by
    intro text
    rw [buffer64, String.toList_ofList, base64Decode_base64Encode]
  exact getAuth_sent buffer64 (fun text => base64Decode text.toList) hcodec "user" "pa:ss wörd"
    (by decide) (by decide)
    ⟨"http:", placed "user", placed "pa:ss wörd", "proxy.test", none, "/", "", ""⟩
    ⟨"tcp:", "", "", "a.test", none, "", "", ""⟩ rfl rfl ⟨none, none, none⟩

end Proxinator.Forward
