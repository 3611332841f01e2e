import Proxinator.Client.Nesting
import Proxinator.Lib.Run
import Mathlib.Data.List.TakeWhile

/-!
# The cleanup of a failed chain

A chain is a fold of promises that stops at the first hop that fails. The sockets of the
hops before it are collected one hop late, so at the failure exactly those have been
collected that the hops returned. The chain destroys them; a chain of which all hops succeed
destroys nothing. Only a proxy whose scheme is the name of an inherited property gets in the
way: its hop returns the URL of the proxy, and the cleanup throws when it comes to that.

## Main results

* `foldl_hop_succeed` — what a run of successful hops leaves.
* `chain_failed` — what a chain does whose hops fail at some position.
* `chain_cleanup_iff` — the promise, the sockets destroyed and the hops tried, for every
  position of the failure.
-/

namespace Proxinator.Client

variable {World Socket Lookup : Type*}

/-! ## Runs of successful hops -/

section

variable (node : Node World Socket Lookup) (opts : Options Socket Lookup)

/-- What a hop does with the socket of the hop before it: its client is looked up and called. -/
def attempt (hop : Hop × ℕ) (socket : Option Socket) (w : World) :
    Except Error Socket × World :=
  match getClient hop.1.proxy with
  | .error e => (.error e, w)
  | .ok found => found.call node hop.1 (hopOptions opts hop.2 socket) w

/-- The hops succeed one after the other and return the sockets, each hop given the socket of
the one before it. -/
inductive Succeed : List (Hop × ℕ) → Option Socket → World → List Socket → World → Prop
  | nil (previous : Option Socket) (w : World) : Succeed [] previous w [] w
  | cons {hop : Hop × ℕ} {hops : List (Hop × ℕ)} {previous : Option Socket} {w w' w'' : World}
      {socket : Socket} {sockets : List Socket}
      (hhop : attempt node opts hop previous w = (.ok socket, w'))
      (hhops : Succeed hops (some socket) w' sockets w'') :
      Succeed (hop :: hops) previous w (socket :: sockets) w''

end

variable {node : Node World Socket Lookup} {opts : Options Socket Lookup}

/-- A chained hop is an attempt, for which the socket of the hop before it is collected. -/
theorem hop_eq_attempt (hop : Hop × ℕ) (socket : Option Socket) (sockets : List Socket)
    (w : World) :
    Chained.hop node opts ⟨.ok socket, sockets, w⟩ hop =
      ⟨(attempt node opts hop socket w).1.map some, sockets ++ socket.toList,
        (attempt node opts hop socket w).2⟩ := by
  simp only [Chained.hop, attempt]
  cases getClient hop.1.proxy <;> rfl

/-- **After a run of successful hops** the chain has come to the last socket, and the sockets
collected are all the others. -/
theorem foldl_hop_succeed {hops : List (Hop × ℕ)} {previous : Option Socket} {w w' : World}
    {returned : List Socket} (h : Succeed node opts hops previous w returned w')
    (sockets : List Socket) :
    ∃ sockets', hops.foldl (Chained.hop node opts) ⟨.ok previous, sockets, w⟩ =
        ⟨.ok (returned.getLast?.or previous), sockets', w'⟩ ∧
      sockets' ++ (returned.getLast?.or previous).toList =
        sockets ++ previous.toList ++ returned := by
  induction h generalizing sockets with
  | nil previous w => exact ⟨sockets, rfl, by simp⟩
  | @cons hop hops previous w w' w'' socket returned hhop hhops ih =>
      obtain ⟨sockets', hfold, hcollected⟩ := ih (sockets ++ previous.toList)
      have hlast : ((socket :: returned).getLast?).or previous =
          returned.getLast?.or (some socket) := by
        cases returned with
        | nil => rfl
        | cons next returned =>
            rw [List.getLast?_cons_cons, List.getLast?_eq_some_getLast (List.cons_ne_nil _ _)]
            rfl
      refine ⟨sockets', ?_, ?_⟩
      · rw [List.foldl_cons, hop_eq_attempt, hhop, hlast]
        exact hfold
      · rw [hlast, hcollected]
        simp

/-! ## What the log says -/

/-- The sockets that were destroyed. -/
def destroyed (log : List (Action Socket Lookup)) : List Socket :=
  log.filterMap fun
    | .destroy socket => some socket
    | _ => none

@[simp] theorem destroyed_append (log log' : List (Action Socket Lookup)) :
    destroyed (log ++ log') = destroyed log ++ destroyed log' :=
  List.filterMap_append

/-- A hop that succeeds destroys nothing, and it returns a socket unless what was called for it
is no client. -/
theorem attempt_ok (hnode : node.Documented) {hop : Hop × ℕ} {previous : Option Socket}
    {w w' : World} {socket : Socket} (h : attempt node opts hop previous w = (.ok socket, w')) :
    destroyed (node.log w') = destroyed (node.log w) ∧
      (node.isSocket socket = true ↔ hop.1.proxy.protocolName ≠ inherited) := by
  rw [attempt] at h
  cases hclient : getClient hop.1.proxy with
  | error e =>
      rw [hclient] at h
      cases h
  | ok found =>
      rw [hclient] at h
      cases found with
      | ours client =>
          have hname : hop.1.proxy.protocolName ≠ inherited := by
            rcases chainable_of_getClient hclient with hname | hname | hname <;>
              rw [hname] <;> decide
          refine ⟨?_, iff_of_true (call_isSocket hnode h) hname⟩
          rcases call_logged hnode hclient h with ⟨-, -, hlog⟩ | ⟨-, hlog⟩
          · rw [hlog, destroyed_append]
            exact List.append_nil _
          · rw [hlog, destroyed_append, dialTo]
            split_ifs <;> exact List.append_nil _
      | object =>
          cases h
          refine ⟨rfl, ?_⟩
          rw [hnode.isSocket_ofUrl, iff_false_left Bool.false_ne_true, not_not]
          exact inherited_of_getClient hclient

theorem destroyed_succeed (hnode : node.Documented) {hops : List (Hop × ℕ)}
    {previous : Option Socket} {w w' : World} {returned : List Socket}
    (h : Succeed node opts hops previous w returned w') :
    destroyed (node.log w') = destroyed (node.log w) := by
  induction h with
  | nil => rfl
  | cons hhop _ ih => rw [ih, (attempt_ok hnode hhop).1]

theorem isSocket_succeed (hnode : node.Documented) {hops : List (Hop × ℕ)}
    {previous : Option Socket} {w w' : World} {returned : List Socket}
    (h : Succeed node opts hops previous w returned w') :
    (∀ socket ∈ returned, node.isSocket socket = true) ↔
      ∀ hop ∈ hops, hop.1.proxy.protocolName ≠ inherited := by
  induction h with
  | nil => exact iff_of_true (List.forall_mem_nil _) (List.forall_mem_nil _)
  | cons hhop _ ih =>
      rw [List.forall_mem_cons, List.forall_mem_cons, (attempt_ok hnode hhop).2, ih]

/-- Destroying sockets one after the other. -/
theorem destroyed_foldl (hnode : node.Documented) (sockets : List Socket) (w : World) :
    destroyed (node.log (sockets.foldl (fun w socket => node.destroy socket w) w)) =
      destroyed (node.log w) ++ sockets := by
  have hdestroy : ∀ (w : World) (socket : Socket),
      destroyed (node.log (node.destroy socket w)) = destroyed (node.log w) ++ [socket] := by
    intro w socket
    rw [hnode.log_destroy, destroyed_append]
    rfl
  have hall := Lib.foldl_append_component (fun w => destroyed (node.log w)) hdestroy sockets w
  rwa [List.flatMap_singleton'] at hall

/-- **The cleanup destroys sockets up to the first thing that is none**, and throws there. -/
theorem destroyAll_eq (sockets : List Socket) (w : World) :
    destroyAll node sockets w =
      (if ∀ socket ∈ sockets, node.isSocket socket = true then none
        else some (error "socket.destroy is not a function"),
        (sockets.takeWhile node.isSocket).foldl (fun w socket => node.destroy socket w) w) := by
  induction sockets generalizing w with
  | nil => rfl
  | cons socket sockets ih =>
      rw [destroyAll]
      by_cases hsocket : node.isSocket socket = true
      · rw [if_pos hsocket, ih, List.takeWhile_cons_of_pos hsocket, List.foldl_cons]
        simp only [List.forall_mem_cons, hsocket, true_and]
      · rw [if_neg hsocket, List.takeWhile_cons_of_neg hsocket, if_neg]
        · rfl
        · intro hall
          exact hsocket (hall socket List.mem_cons_self)

/-! ## Chains -/

/-- **What a failed chain does**: the world is as the failed hop left it, with no hop after it
tried, except for the cleanup. -/
theorem chain_failed {proxies : List Url} {target : Url} {w w' w'' : World}
    {before after : List (Hop × ℕ)} {hop : Hop × ℕ} {returned : List Socket} {e : Error}
    (hsplit : (hops proxies target).zipIdx = before ++ hop :: after)
    (hbefore : Succeed node opts before none w returned w')
    (hfailed : attempt node opts hop returned.getLast? w' = (.error e, w'')) :
    chain node opts proxies target w =
      (.error ((destroyAll node returned w'').1.getD e), (destroyAll node returned w'').2) := by
  obtain ⟨sockets, hfold, hcollected⟩ := foldl_hop_succeed hbefore []
  simp only [Option.or_none, Option.toList_none, List.append_nil, List.nil_append]
    at hfold hcollected
  have hchained : chained node opts proxies target w = ⟨.error e, returned, w''⟩ := by
    rw [chained, hsplit, List.foldl_append, hfold, List.foldl_cons, hop_eq_attempt, hfailed,
      hcollected]
    exact foldl_hop_error after rfl
  have hne : proxies.length ≠ 0 := by
    intro hnil
    rw [List.length_eq_zero_iff.mp hnil] at hsplit
    simp [hops] at hsplit
  rw [chain, if_neg hne, hchained]

/-- **A chain whose cleanup is complete**: it rejects with the error `e` of the hop that failed,
and the world is as that hop left it in `w'`, except that everything that the hops before it
`returned` is destroyed. -/
structure Cleaned (node : Node World Socket Lookup)
    (chained : Except Error (Option Socket) × World) (e : Error) (returned : List Socket)
    (w' : World) : Prop where
  result : chained = (.error e, returned.foldl (fun w socket => node.destroy socket w) w')
  released : destroyed (node.log chained.2) = destroyed (node.log w') ++ returned

/-- **A failed chain leaks no socket, unless a hop before the failure was called with no
client.** The hops `before` succeed and `hop` fails, whether its client cannot be had or
rejects; no hop of `after` is tried. If all hops succeed, nothing is destroyed and the socket
of the last is returned. -/
theorem chain_cleanup_iff (node : Node World Socket Lookup) (hnode : node.Documented)
    (opts : Options Socket Lookup) (proxies : List Url) (target : Url) (w : World) :
    (∀ before hop after returned w' e w'',
      (hops proxies target).zipIdx = before ++ hop :: after →
      Succeed node opts before none w returned w' →
      attempt node opts hop returned.getLast? w' = (.error e, w'') →
      (Cleaned node (chain node opts proxies target w) e returned w'' ↔
        ∀ hop ∈ before, hop.1.proxy.protocolName ≠ inherited)) ∧
    (∀ returned w', proxies ≠ [] →
      Succeed node opts (hops proxies target).zipIdx none w returned w' →
      chain node opts proxies target w = (.ok returned.getLast?, w') ∧
        destroyed (node.log (chain node opts proxies target w).2) = destroyed (node.log w)) := by
  constructor
  · intro before hop after returned w' e w'' hsplit hbefore hfailed
    have hchain := chain_failed hsplit hbefore hfailed
    rw [destroyAll_eq] at hchain
    rw [← isSocket_succeed hnode hbefore]
    constructor
    · intro hcleaned
      have hdestroyed := hcleaned.released
      rw [hchain, destroyed_foldl hnode, List.append_cancel_left_eq,
        List.takeWhile_eq_self_iff] at hdestroyed
      exact hdestroyed
    · intro hall
      rw [if_pos hall, List.takeWhile_eq_self_iff.mpr hall] at hchain
      exact ⟨hchain, by rw [hchain, destroyed_foldl hnode]⟩
  · intro returned w' hne hall
    obtain ⟨sockets, hfold, -⟩ := foldl_hop_succeed hall []
    rw [Option.or_none] at hfold
    have hchained : chained node opts proxies target w = ⟨.ok returned.getLast?, sockets, w'⟩ :=
      hfold
    have hchain : chain node opts proxies target w = (.ok returned.getLast?, w') := by
      rw [chain, if_neg (by simpa using hne), hchained]
    exact ⟨hchain, by rw [hchain, destroyed_succeed hnode hall]⟩

/-- The second proxy of three is of a protocol that has no client. -/
def brokenChain : List Url :=
  [plainUrl "http:" "a.test" none, plainUrl "ftp:" "b.test" none,
    plainUrl "socks5:" "c.test" none]

theorem chain_cleanup_broken :
    Cleaned agreeable (chain agreeable ⟨none, none, none⟩ brokenChain
        (plainUrl "tcp:" "d.test" (some 443)) [])
      (error "Unsupported proxy protocol: ftp") [0]
      (dialed "a.test" 80 none none (.connect "b.test") []) := by
  have hfirst : Succeed agreeable ⟨none, none, none⟩ [(⟨plainUrl "http:" "a.test" none,
      plainUrl "ftp:" "b.test" none⟩, 0)] none [] [0]
      (dialed "a.test" 80 none none (.connect "b.test") []) :=
    .cons (by decide +kernel) (.nil _ _)
  exact ((chain_cleanup_iff agreeable agreeable_documented ⟨none, none, none⟩ brokenChain
    (plainUrl "tcp:" "d.test" (some 443)) []).1 _ _ _ _ _ _ _ rfl hfirst
    (by decide +kernel)).mpr (by decide +kernel)

/-- A chain that starts with a proxy of the scheme `constructor:`, and ends with one that has no
client. -/
def inheritedChain : List Url :=
  [plainUrl "constructor:" "a.test" none, plainUrl "https:" "b.test" none,
    plainUrl "ftp:" "c.test" none]

/-- **The error is not that of the hop that failed, and the connection to the second proxy stays
open.** -/
theorem chain_cleanup_inherited :
    chain agreeable ⟨none, none, none⟩ inheritedChain (plainUrl "tcp:" "d.test" (some 443)) [] =
        (.error (error "socket.destroy is not a function"),
          dialed "b.test" 443 none none (.connect "c.test") []) ∧
      ¬ Cleaned agreeable (chain agreeable ⟨none, none, none⟩ inheritedChain
          (plainUrl "tcp:" "d.test" (some 443)) [])
        (error "Unsupported proxy protocol: ftp") [-1, 0]
        (dialed "b.test" 443 none none (.connect "c.test") []) := by
  have hchain : chain agreeable ⟨none, none, none⟩ inheritedChain
      (plainUrl "tcp:" "d.test" (some 443)) [] =
        (.error (error "socket.destroy is not a function"),
          dialed "b.test" 443 none none (.connect "c.test") []) := by
    decide +kernel
  refine ⟨hchain, ?_⟩
  intro hcleaned
  have hresult := congrArg Prod.fst hcleaned.result
  rw [hchain] at hresult
  exact absurd hresult (by decide +kernel)

end Proxinator.Client
