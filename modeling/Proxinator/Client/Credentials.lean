import Proxinator.Client
import Proxinator.Forward
import Proxinator.Url.Parse

/-!
# Credentials in error messages

The forward client puts the URL of the upstream proxy into the messages of its errors, user
name and password included, and a forward server that answers its client with such an error
passes them on. `hidden_iff` compares two runs that differ only in the credentials: the
messages are the same only if the credentials are, or if no request was sent.
-/

namespace Proxinator.Client

variable {World Socket Lookup : Type*}

/-! ## User information -/

/-- User name and password as they stand in a URL: the parser and the setters of WHATWG URL
encode them. -/
def Encoded (url : Url) : Prop :=
  (∀ c ∈ url.username.toList, userinfoSet c = false) ∧
    ∀ c ∈ url.password.toList, userinfoSet c = false

theorem Encoded.of_all {url : Url} (husername : url.username.toList.all (!userinfoSet ·) = true)
    (hpassword : url.password.toList.all (!userinfoSet ·) = true) : Encoded url := by
  simp only [List.all_eq_true, Bool.not_eq_true'] at husername hpassword
  exact ⟨husername, hpassword⟩

/-- The credentials of a URL that has a user name can be decoded. -/
def Decodable (url : Url) : Prop :=
  url.username = "" ∨
    (decodeURIComponent url.username).isSome ∧ (decodeURIComponent url.password).isSome

instance (url : Url) : Decidable (Decodable url) :=
  inferInstanceAs (Decidable (_ ∨ _))

/-- The password as it follows the user name. -/
def passwordText (password : String) : String := if password = "" then "" else ":" ++ password

/-- The text of the user information in a URL. -/
def userinfo (username password : String) : String :=
  if username = "" ∧ password = "" then "" else username ++ passwordText password ++ "@"

theorem href_eq (url : Url) :
    url.href = url.protocol ++ "//" ++ userinfo url.username url.password ++
      (url.host ++ url.pathname ++ url.search ++ url.hash) := by
  simp [Url.href, userinfo, passwordText, String.append_assoc]

theorem passwordText_inj {password password' : String}
    (h : passwordText password = passwordText password') : password = password' := by
  simp only [passwordText] at h
  split_ifs at h with hempty hempty' hempty'
  · rw [hempty, hempty']
  · simp [String.ext_iff] at h
  · simp [String.ext_iff] at h
  · exact (String.append_right_inj ":").mp h

/-- The user name ends where the password begins. -/
theorem takeWhile_append_passwordText {username : List Char} (h : ':' ∉ username)
    (password : String) :
    (username ++ (passwordText password).toList).takeWhile (· ≠ ':') = username := by
  have hne : ∀ c ∈ username, decide (c ≠ ':') = true := by
    intro c hc
    have hcolon : c ≠ ':' := fun heq => h (heq ▸ hc)
    simpa using hcolon
  rw [List.takeWhile_append_of_pos hne, passwordText]
  split_ifs <;> simp

/-- **User name and password are read back from the text**: no encoded user name holds a
colon. -/
theorem userinfo_inj {username password username' password' : String}
    (h : ':' ∉ username.toList) (h' : ':' ∉ username'.toList)
    (heq : userinfo username password = userinfo username' password') :
    username = username' ∧ password = password' := by
  have hat : "@".length = 1 := rfl
  simp only [userinfo] at heq
  split_ifs at heq with hempty hempty' hempty'
  · exact ⟨hempty.1.trans hempty'.1.symm, hempty.2.trans hempty'.2.symm⟩
  · have hlength := congrArg String.length heq
    simp only [String.length_append, hat, String.length_empty] at hlength
    omega
  · have hlength := congrArg String.length heq
    simp only [String.length_append, hat, String.length_empty] at hlength
    omega
  · have htexts : username ++ passwordText password = username' ++ passwordText password' :=
      (String.append_left_inj "@").mp heq
    have hname : username = username' := by
      apply String.toList_injective
      rw [← takeWhile_append_passwordText h password,
        ← takeWhile_append_passwordText h' password', ← String.toList_append,
        ← String.toList_append, htexts]
    subst hname
    exact ⟨rfl, passwordText_inj ((String.append_right_inj username).mp htexts)⟩

/-! ## The error of a request that failed -/

/-- How an upstream proxy lets a CONNECT request fail. -/
inductive Failure
  | refused (statusCode : ℕ) (statusMessage : String)
  | silent

/-- The response that comes of it. -/
inductive Failure.ShownBy : Failure → Response Socket → Prop
  | refused (statusCode : ℕ) (statusMessage : String) (socket : Socket) (head : List UInt8)
      (h : statusCode ≠ 200) :
      ShownBy (.refused statusCode statusMessage) (.connect statusCode statusMessage socket head)
  | silent (socket : Option Socket) : ShownBy .silent (.timeout socket)

/-- What the message says before it names the proxy. -/
def Failure.text : Failure → String
  | .refused statusCode statusMessage =>
    "Proxy server returned " ++ toString statusCode ++ " (" ++ statusMessage ++ ") ("
  | .silent => "CONNECT timeout after " ++ toString connectTimeout ++ "ms ("

/-- The message of the error. -/
def Failure.message (failure : Failure) (proxy host : Url) : String :=
  failure.text ++ proxy.href ++ ") (" ++ host.href ++ ")"

/-- The message with which the client rejects a request that fails, or that is never sent. -/
def rejection (failure : Failure) (proxy host : Url) : String :=
  if ¬ Decodable proxy then "URI malformed"
  else if protocol proxy.protocolName = none then (noModule proxy.protocolName).message
  else failure.message proxy host

/-- The upstream proxy answers the client's request with a failure. -/
def Node.Fails (node : Node World Socket Lookup) (failure : Failure) (proxy host : Url)
    (opts : Options Socket Lookup) (w : World) : Prop :=
  ∀ module o, requestOptions node.base64 proxy host opts = .ok o →
    failure.ShownBy (node.request module o w).1

theorem credentials_of_decodable {proxy : Url} (h : Decodable proxy) :
    ∃ user, credentials proxy = .ok user := by
  rw [credentials]
  split_ifs with hempty
  · exact ⟨none, rfl⟩
  · obtain ⟨husername, hpassword⟩ := h.resolve_left hempty
    obtain ⟨username, husername⟩ := Option.isSome_iff_exists.mp husername
    obtain ⟨password, hpassword⟩ := Option.isSome_iff_exists.mp hpassword
    exact ⟨some (username, password), by rw [husername, hpassword]⟩

theorem credentials_of_not_decodable {proxy : Url} (h : ¬ Decodable proxy) :
    credentials proxy = .error (error "URI malformed") := by
  rw [Decodable, not_or] at h
  rw [credentials, if_neg h.1]
  split
  next username password husername hpassword =>
    exact absurd ⟨by rw [husername]; rfl, by rw [hpassword]; rfl⟩ h.2
  next => rfl

/-- **A request that fails is rejected with that message.** -/
theorem forward_fails {node : Node World Socket Lookup} {failure : Failure} {proxy host : Url}
    {opts : Options Socket Lookup} {w : World} (h : node.Fails failure proxy host opts w) :
    ∃ e, (forward node proxy host opts w).1 = .error e ∧
      e.message = rejection failure proxy host := by
  by_cases hdecodable : Decodable proxy
  · obtain ⟨user, huser⟩ := credentials_of_decodable hdecodable
    obtain ⟨o, ho⟩ : ∃ o, requestOptions node.base64 proxy host opts = .ok o := by
      rw [requestOptions, huser]
      exact ⟨_, rfl⟩
    rw [rejection, if_neg (not_not.mpr hdecodable), forward, ho]
    cases hprotocol : protocol proxy.protocolName with
    | none => exact ⟨_, rfl, rfl⟩
    | some module =>
        have hshown := h module o ho
        rcases hrequest : node.request module o w with ⟨response, w'⟩
        rw [hrequest] at hshown
        simp only [hrequest]
        cases hshown with
        | refused statusCode statusMessage socket head hstatus =>
            simp only [if_pos hstatus]
            refine ⟨_, rfl, ?_⟩
            rw [if_neg (Option.some_ne_none module)]
            rfl
        | silent socket =>
            refine ⟨_, rfl, ?_⟩
            rw [if_neg (Option.some_ne_none module)]
            rfl
  · have ho : requestOptions node.base64 proxy host opts = .error (error "URI malformed") := by
      rw [requestOptions, credentials_of_not_decodable hdecodable]
      rfl
    rw [rejection, if_pos hdecodable, forward, ho]
    exact ⟨_, rfl, rfl⟩

/-! ## Two runs -/

/-- The same URL with other credentials. -/
def withCredentials (proxy : Url) (username password : String) : Url :=
  { proxy with username := username, password := password }

/-- **Two rejections that do not tell the credentials**: they have the same message, and a
forward server that answers its client with it writes the same. -/
structure Hidden (result result' : Except Error Socket) : Prop where
  message : ∃ e e', result = .error e ∧ result' = .error e' ∧ e.message = e'.message
  refuse : ∀ e e', result = .error e → result' = .error e' →
    ∀ (c : Forward.Connection) (status : Option Forward.NumberText) (headers : Forward.Headers),
      c.refuse e.message status headers = c.refuse e'.message status headers

theorem hidden_of_message {e e' : Error} :
    Hidden (Except.error e : Except Error Socket) (Except.error e') ↔ e.message = e'.message := by
  constructor
  · rintro ⟨⟨_, _, ⟨⟩, ⟨⟩, h⟩, -⟩
    exact h
  · intro h
    refine ⟨⟨e, e', rfl, rfl, h⟩, ?_⟩
    rintro _ _ ⟨⟩ ⟨⟩ c status headers
    rw [h]

/-- **The message of a failure tells user name and password.** -/
theorem message_inj {proxy : Url} {username password : String} (failure : Failure) (host : Url)
    (h : ':' ∉ proxy.username.toList) (h' : ':' ∉ username.toList) :
    failure.message proxy host = failure.message (withCredentials proxy username password) host ↔
      proxy.username = username ∧ proxy.password = password := by
  constructor
  · intro heq
    have hhref : proxy.href = (withCredentials proxy username password).href := by
      have hafter := (String.append_left_inj host.href).mp ((String.append_left_inj ")").mp heq)
      exact (String.append_right_inj failure.text).mp ((String.append_left_inj ") (").mp hafter)
    rw [href_eq, href_eq] at hhref
    have huserinfo : userinfo proxy.username proxy.password = userinfo username password := by
      simpa [withCredentials, Url.host] using hhref
    exact userinfo_inj h h' huserinfo
  · rintro ⟨rfl, rfl⟩
    rfl

theorem head?_append {text : String} {c : Char} (h : text.toList.head? = some c) (rest : String) :
    (text ++ rest).toList.head? = some c := by
  rw [String.toList_append, List.head?_append, h]
  rfl

/-- No request fails with the message of one whose credentials cannot be decoded. -/
theorem message_ne_malformed (failure : Failure) (proxy host : Url) :
    failure.message proxy host ≠ "URI malformed" := by
  have htext : ∃ c, c ≠ 'U' ∧ failure.text.toList.head? = some c := by
    cases failure with
    | refused statusCode statusMessage =>
        refine ⟨'P', by decide, ?_⟩
        unfold Failure.text
        simp only [String.append_assoc]
        exact head?_append (by decide) _
    | silent =>
        refine ⟨'C', by decide, ?_⟩
        unfold Failure.text
        simp only [String.append_assoc]
        exact head?_append (by decide) _
  obtain ⟨c, hne, hc⟩ := htext
  intro heq
  simp only [Failure.message, String.append_assoc] at heq
  have hhead := head?_append hc (proxy.href ++ (") (" ++ (host.href ++ ")")))
  rw [heq] at hhead
  exact hne (Option.some.inj hhead).symm

theorem rejection_ne_malformed {failure : Failure} {proxy host : Url} (h : Decodable proxy) :
    rejection failure proxy host ≠ "URI malformed" := by
  rw [rejection, if_neg (not_not.mpr h)]
  split_ifs
  · rw [noModule]
    split_ifs <;> decide
  · exact message_ne_malformed failure proxy host

/-- **Two runs that differ only in the credentials of the proxy are rejected with the same
message exactly when the credentials are the same**, or no request was sent. -/
theorem hidden_iff (node : Node World Socket Lookup) (failure : Failure) (proxy host : Url)
    (username password : String) (opts : Options Socket Lookup) (w w' : World)
    (hproxy : Encoded proxy) (hproxy' : Encoded (withCredentials proxy username password))
    (h : node.Fails failure proxy host opts w)
    (h' : node.Fails failure (withCredentials proxy username password) host opts w') :
    Hidden (forward node proxy host opts w).1
        (forward node (withCredentials proxy username password) host opts w').1 ↔
      (proxy.username = username ∧ proxy.password = password) ∨
      (¬ Decodable proxy ∧ ¬ Decodable (withCredentials proxy username password)) ∨
      (protocol proxy.protocolName = none ∧ Decodable proxy ∧
        Decodable (withCredentials proxy username password)) := by
  obtain ⟨e, he, hmessage⟩ := forward_fails h
  obtain ⟨e', he', hmessage'⟩ := forward_fails h'
  have hcolon : ∀ {url : Url}, Encoded url → ':' ∉ url.username.toList := by
    intro url hurl hmem
    exact absurd (hurl.1 ':' hmem) (by decide)
  have hinj : failure.message proxy host =
        failure.message (withCredentials proxy username password) host ↔
      proxy.username = username ∧ proxy.password = password :=
    message_inj failure host (hcolon hproxy) (hcolon hproxy')
  rw [he, he', hidden_of_message, hmessage, hmessage']
  by_cases hdecodable : Decodable proxy
  · by_cases hdecodable' : Decodable (withCredentials proxy username password)
    · rw [rejection, rejection, if_neg (not_not.mpr hdecodable),
        if_neg (not_not.mpr hdecodable')]
      by_cases hprotocol : protocol proxy.protocolName = none
      · have hprotocol' : protocol (withCredentials proxy username password).protocolName = none :=
          hprotocol
        rw [if_pos hprotocol, if_pos hprotocol']
        simp only [hprotocol, hdecodable, hdecodable', and_self, or_true, iff_true]
        rfl
      · have hprotocol' :
            ¬ protocol (withCredentials proxy username password).protocolName = none := hprotocol
        rw [if_neg hprotocol, if_neg hprotocol', hinj]
        simp [hprotocol, hdecodable]
    · have hmalformed : rejection failure (withCredentials proxy username password) host =
          "URI malformed" := if_pos hdecodable'
      have hne : ¬ (proxy.username = username ∧ proxy.password = password) := by
        rintro ⟨rfl, rfl⟩
        exact hdecodable' hdecodable
      simp [hmalformed, rejection_ne_malformed hdecodable, hne, hdecodable, hdecodable']
  · by_cases hdecodable' : Decodable (withCredentials proxy username password)
    · have hmalformed : rejection failure proxy host = "URI malformed" := if_pos hdecodable
      have hne : ¬ (proxy.username = username ∧ proxy.password = password) := by
        rintro ⟨rfl, rfl⟩
        exact hdecodable hdecodable'
      simp [hmalformed, (rejection_ne_malformed hdecodable').symm, hne, hdecodable, hdecodable']
    · rw [rejection, rejection, if_pos hdecodable, if_pos hdecodable']
      simp [hdecodable, hdecodable']

/-- A network on which no proxy answers. -/
def silentNode : Node Unit Unit Unit where
  base64 text := text
  request _ _ _ := (.timeout none, ())
  createConnection _ _ := (.error (error ""), ())
  connect _ _ := ((), ())
  unshift _ _ _ := ()
  destroy _ _ := ()
  ofUrl _ := ()
  isSocket _ := false
  log _ := []

/-- A proxy with a user name and a password. -/
def exampleProxy : Url := ⟨"http:", "user", "pass", "proxy.test", some ⟨8080, by decide⟩, "/", "", ""⟩

/-- A target. -/
def exampleHost : Url := ⟨"tcp:", "", "", "a.test", some ⟨443, by decide⟩, "", "", ""⟩

theorem fails_silentNode (proxy host : Url) :
    silentNode.Fails .silent proxy host ⟨none, none, none⟩ () := by
  intro _ _ _
  exact .silent none

/-- With the same credentials, nothing differs. -/
theorem hidden_same :
    Hidden (forward silentNode exampleProxy exampleHost ⟨none, none, none⟩ ()).1
      (forward silentNode (withCredentials exampleProxy "user" "pass") exampleHost
        ⟨none, none, none⟩ ()).1 := by
  have hencoded : Encoded exampleProxy := .of_all (by decide) (by decide)
  exact (hidden_iff silentNode .silent exampleProxy exampleHost "user" "pass" ⟨none, none, none⟩
    () () hencoded hencoded (fails_silentNode _ _) (fails_silentNode _ _)).mpr
      (Or.inl ⟨rfl, rfl⟩)

/-- What a timeout of this proxy is reported with, given its password. -/
def exampleMessage (password : String) : String :=
  "CONNECT timeout after 30000ms (http://user:" ++ password ++
    "@proxy.test:8080/) (tcp://a.test:443)"

/-- With another password, the message is another one, and so is what a client of the forward
server is sent. -/
theorem not_hidden_password :
    (forward silentNode exampleProxy exampleHost ⟨none, none, none⟩ ()).1 =
        .error (error (exampleMessage "pass")) ∧
      (forward silentNode (withCredentials exampleProxy "user" "word") exampleHost
        ⟨none, none, none⟩ ()).1 = .error (error (exampleMessage "word")) ∧
      ((Forward.Connection.accepted []).refuse (exampleMessage "pass")
          (some (.ofNat 502)) []).responses ≠
        ((Forward.Connection.accepted []).refuse (exampleMessage "word")
          (some (.ofNat 502)) []).responses ∧
      ¬ Hidden (forward silentNode exampleProxy exampleHost ⟨none, none, none⟩ ()).1
        (forward silentNode (withCredentials exampleProxy "user" "word") exampleHost
          ⟨none, none, none⟩ ()).1 := by
  have hpass : (forward silentNode exampleProxy exampleHost ⟨none, none, none⟩ ()).1 =
      .error (error (exampleMessage "pass")) := by
    rfl
  have hword : (forward silentNode (withCredentials exampleProxy "user" "word") exampleHost
      ⟨none, none, none⟩ ()).1 = .error (error (exampleMessage "word")) := by
    rfl
  refine ⟨hpass, hword, by decide +kernel, ?_⟩
  rw [hpass, hword, hidden_of_message]
  decide

end Proxinator.Client
