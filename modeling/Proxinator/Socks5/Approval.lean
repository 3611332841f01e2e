import Proxinator.Socks5.Handshake

/-!
# No connection without approval

Whenever the SOCKS5 server has emitted `connection` for one of its sockets, what happened
to that socket before is an approved transcript followed by the request
(`connection_approved`). The transcript is all there was of the handshake, so
`authenticate` was asked once, about the credentials of this socket, and nothing failed.
-/

namespace Proxinator.Socks5

open Lib

/-- An action that fails the handshake. -/
def Action.isFailure : Action → Bool
  | .ended | .uncaught | .settled .rejected | .settled (.fulfilled false) => true
  | _ => false

variable {opts : Options} {info : SocketInfo} {auth : Option Credentials} {t : List Action}

theorem Approved.no_failure (h : Approved opts info auth t) :
    ∀ action ∈ t, action.isFailure = false := by
  cases h <;> cases hopts : opts.authenticate <;> simp [approval, hopts, Action.isFailure]

theorem Progress.connection_notMem {listeners : List DataListener} {checks : List Check}
    (h : Progress opts info listeners checks auth t) (address : Address) :
    .connection address ∉ t := by
  cases h with
  | greeting | auth => simp
  | checking | checkingNoAuth => cases hopts : opts.authenticate <;> simp [asked, hopts]
  | request _ _ happroved => exact happroved.not_mem.1 address
  | refused _ _ hnone => exact hnone address

/-- A failure is part of the transcript. -/
theorem isFailure_of_transcript {log : List Action}
    (h : ∀ action ∈ transcript log, action.isFailure = false) :
    ∀ action ∈ log, action.isFailure = false := by
  intro action hmem
  cases hkind : isHandshake action with
  | true => exact h action (List.mem_filter.mpr ⟨hmem, hkind⟩)
  | false => cases action <;> first | rfl | cases hkind

/-- **Every connection is approved.** For every socket of the server, in every run: when
`connection` was emitted, the handshake of that socket had been an approved transcript and
the request `r`, a CONNECT request whose address was accepted; nothing had failed, no other
connection is made of the socket, and `getAuth()` is what was approved. -/
theorem connection_approved (opts : Options) (events : List ServerEvent) :
    ∀ s ∈ (run (Server.step opts) Server.new events).sockets, ∀ pre address post,
      s.log = pre ++ .connection address :: post →
      ∃ before r, transcript pre = before ++ [.received r] ∧
        Approved opts (socketInfo s.endpoints) s.getAuth before ∧
        r[1]? = some cmdConnect ∧ parseAddress r = some address ∧
        (∀ action ∈ pre, action.isFailure = false) ∧
        ∀ address', .connection address' ∉ pre ++ post := by
  intro s hs pre address post hlog
  obtain ⟨endpoints, es, rfl⟩ := Server.mem_sockets opts events s hs
  have hinv := Socket.inv_run opts endpoints es
  generalize run (Socket.step opts) (Socket.accepted endpoints) es = s at hinv hlog
  rcases hinv.stage with ⟨-, hprogress⟩ | ⟨address', hp⟩
  · exfalso
    refine hprogress.connection_notMem address (connection_mem_transcript.mpr ?_)
    simp [hlog]
  · obtain ⟨pre', r, post', hlog', happroved, hr, haddress, hpost⟩ := hp.log_eq
    have hpre : ∀ a, .connection a ∉ pre' ++ [.received r] := by
      intro a hmem
      rcases List.mem_append.mp hmem with hmem | hmem
      · exact happroved.not_mem.1 a (connection_mem_transcript.mpr hmem)
      · cases List.mem_singleton.mp hmem
    have hsplit : (pre' ++ [.received r]) ++ .connection address' :: post' =
        pre ++ .connection address :: post := by
      rw [← hlog, hlog']
      simp
    obtain ⟨rfl, heq, rfl⟩ :=
      (List.append_cons_inj_of_notMem (hpre address) (hpost address)).mp hsplit
    cases heq
    refine ⟨transcript pre', r, by simp [isHandshake], happroved, hr, haddress, ?_, ?_⟩
    · apply isFailure_of_transcript
      intro action hmem
      rw [transcript_append] at hmem
      rcases List.mem_append.mp hmem with hmem | hmem
      · exact happroved.no_failure action hmem
      · obtain rfl : action = .received r := by simpa [isHandshake] using hmem
        rfl
    · intro a hmem
      exact (List.mem_append.mp hmem).elim (hpre a) (hpost a)

/-- Two clients, of which the second is approved. -/
private def twoClients : List ServerEvent :=
  [.accept ⟨some "::ffff:10.0.0.1", some 4001, some "10.0.0.9", some 1080⟩,
    .accept ⟨some "::ffff:10.0.0.2", some 4002, some "10.0.0.9", some 1080⟩,
    .socket 1 (.data [5, 2, 0, 2] fun _ => .returns),
    .socket 0 (.data [5, 1, 0] fun _ => .returns),
    .socket 1 (.data [1, 1, 0x75, 1, 0x70] fun _ => .returns),
    .socket 0 (.settle 0 (.fulfilled false)),
    .socket 1 (.settle 0 (.fulfilled true)),
    .socket 0 (.data [5, 1, 0, 1, 127, 0, 0, 1, 0, 80] fun _ => .returns),
    .socket 1 (.data [5, 1, 0, 1, 127, 0, 0, 1, 0, 80] fun _ => .returns)]

theorem connection_approved_two_clients :
    ∃ s ∈ (run (Server.step ⟨true⟩) Server.new twoClients).sockets, ∃ pre before r,
      s.log = pre ++ [.connection ⟨"127.0.0.1", 80, 1⟩] ∧
        transcript pre = before ++ [.received r] ∧
        Approved ⟨true⟩ ⟨some "10.0.0.2", some 4002, some "10.0.0.9", some 1080⟩
          (some ⟨"u", "p"⟩) before := by
  have hrun : ((run (Server.step ⟨true⟩) Server.new twoClients).sockets[1]?).map
      (fun s => (s.log, s.getAuth, socketInfo s.endpoints)) =
      some ([.received [5, 2, 0, 2], .wrote [5, 2], .received [1, 1, 0x75, 1, 0x70],
          .authenticate ⟨⟨some "10.0.0.2", some 4002, some "10.0.0.9", some 1080⟩,
            some "u", some "p"⟩,
          .settled (.fulfilled true), .wrote [1, 0],
          .received [5, 1, 0, 1, 127, 0, 0, 1, 0, 80]] ++ [.connection ⟨"127.0.0.1", 80, 1⟩],
        some ⟨"u", "p"⟩, ⟨some "10.0.0.2", some 4002, some "10.0.0.9", some 1080⟩) := by
    decide +kernel
  obtain ⟨s, hs, heq⟩ := Option.map_eq_some_iff.mp hrun
  obtain ⟨hlog, hauth, hinfo⟩ : s.log = _ ∧ s.getAuth = _ ∧ socketInfo s.endpoints = _ := by
    exact ⟨congrArg Prod.fst heq, congrArg (Prod.fst ∘ Prod.snd) heq,
      congrArg (Prod.snd ∘ Prod.snd) heq⟩
  obtain ⟨before, r, htranscript, happroved, -⟩ :=
    connection_approved ⟨true⟩ twoClients s (List.mem_of_getElem? hs) _ _ [] hlog
  rw [hauth, hinfo] at happroved
  exact ⟨s, List.mem_of_getElem? hs, _, before, r, hlog, htranscript, happroved⟩

end Proxinator.Socks5
