import Proxinator.Dns.Retry

/-!
# Bogus answers and the shape of records

The filter takes a record for an address only if it is a text. With `{ ttl: true }`, which
the cache behind `dnsLookup` passes, the records are objects; then no address is bogus to
it and the first answer is returned, whatever it holds. `bogus_retried_iff` says for which
calls an answer with a bogus address is retried as long as retries remain.
-/

namespace Proxinator.Dns

variable {range : String → Option String} {opts : Options} {method : String} {args : List Arg}

/-- An address that the options call bogus: it is listed, or lies in a bogus range. -/
def BogusAddress (range : String → Option String) (opts : Options) (address : String) : Prop :=
  address ∈ opts.ips ∨ ∃ name, range address = some name ∧ name ∈ opts.ranges

/-- A call for addresses with their TTLs. -/
def asksTTL (method : String) (args : List Arg) : Bool :=
  ipMethods.contains method && args[1]? = some (.options true)

/-- The records in which Node's resolver gives addresses and TTLs to a call. -/
def shape (method : String) (args : List Arg) (addresses : List (String × ℕ)) : List Record :=
  addresses.map fun a => if asksTTL method args then .object a.1 a.2 else .text a.1

/-- What the network answers to the queries of a call, in the records of that call. -/
def answers (method : String) (args : List Arg)
    (lookups : ℕ → Except String (List (String × ℕ))) (i : ℕ) : Except String (List Record) :=
  (lookups i).map (shape method args)

/-! ## The verdict -/

theorem isBogusIP_text (address : String) :
    isBogusIP range (.text address) opts.ranges (some opts.ips) = true ↔
      BogusAddress range opts address := by
  rw [isBogusIP, BogusAddress]
  cases hrange : range address with
  | none => simp
  | some name => simp

/-- **The verdict on an answer depends on its addresses if no TTLs were asked for,** -/
theorem hasBogusIPs_shape (range : String → Option String) (opts : Options)
    (httl : asksTTL method args = false) (addresses : List (String × ℕ)) :
    hasBogusIPs range (shape method args addresses) opts.ranges (some opts.ips) = true ↔
      ∃ a ∈ addresses, BogusAddress range opts a.1 := by
  rw [hasBogusIPs, shape, List.any_map, List.any_eq_true]
  simp only [httl, Function.comp, Bool.false_eq_true, if_false, isBogusIP_text]

/-- **and it is always clean if they were.** -/
theorem hasBogusIPs_shape_ttl (httl : asksTTL method args = true) (addresses : List (String × ℕ)) :
    hasBogusIPs range (shape method args addresses) opts.ranges (some opts.ips) = false := by
  rw [hasBogusIPs, shape, List.any_map, List.any_eq_false]
  simp [httl, isBogusIP]

/-! ## Retries -/

variable {lookups : ℕ → Except String (List Record)}

/-- How a call that had `retriesLeft` and `call` queries before it ends: the answer of a query
that another one follows is bogus and had a retry left, and that of the last one is
returned. -/
structure Settles (range : String → Option String) (opts : Options)
    (lookups : ℕ → Except String (List Record)) (call : ℕ) (retriesLeft : ℤ) (result : Result) :
    Prop where
  calls_pos : 0 < result.calls.length
  outcome_eq : result.outcome = lookups (call + (result.calls.length - 1))
  retried_iff : ∀ i < result.calls.length, ∀ results, lookups (call + i) = .ok results →
    (i + 1 < result.calls.length ↔
      (i : ℤ) < retriesLeft ∧ hasBogusIPs range results opts.ranges (some opts.ips) = true)

/-- **`retryOnBogus` repeats the query while the answer is bogus and retries are left.** -/
theorem settles_retryOnBogus (call : ℕ) (retriesLeft : ℤ) :
    Settles range opts lookups call retriesLeft
      (retryOnBogus range opts lookups method args call retriesLeft) := by
  obtain ⟨k, hlast, hretried⟩ :=
    retryOnBogus_attempts range opts lookups method args call retriesLeft
  rw [hretried]
  refine ⟨by simp, by simp, fun i hi results hresults => ?_⟩
  simp only [List.length_replicate] at hi ⊢
  have hfinal : Final range opts (lookups (call + i)) ↔
      hasBogusIPs range results opts.ranges (some opts.ips) = false := by
    rw [hresults, Final]
  rw [← Bool.not_eq_false, ← hfinal]
  constructor
  · intro hlt
    have hle := hlast.le_budget
    exact ⟨by omega, hlast.others i (by omega)⟩
  · rintro ⟨hleft, hgo⟩
    have hne : i ≠ k := by
      rintro rfl
      have hexhausted := hlast.last.resolve_left hgo
      omega
    omega

/-! ## Answers with bogus addresses -/

/-- A resolver without lists calls no address bogus. -/
theorem not_bogusAddress_of_empty (range : String → Option String)
    (hempty : ¬ (0 < opts.ranges.length ∨ 0 < opts.ips.length))
    (address : String) : ¬ BogusAddress range opts address := by
  simp only [not_or, Nat.not_lt, Nat.le_zero, List.length_eq_zero_iff] at hempty
  obtain ⟨hranges, hips⟩ := hempty
  rintro (hip | ⟨name, -, hname⟩)
  · simp [hips] at hip
  · simp [hranges] at hname

/-- A filtered call queries until it settles. -/
theorem settles_resolve (range : String → Option String)
    (lookups : ℕ → Except String (List Record)) (hfilter : shouldFilterResolve method args = true)
    (hlists : 0 < opts.ranges.length ∨ 0 < opts.ips.length) :
    Settles range opts lookups 0 opts.retries (resolve range opts lookups method args) := by
  have hgo : ((0 < opts.ranges.length || 0 < opts.ips.length) &&
      shouldFilterResolve method args) = true := by
    simpa [hfilter] using hlists
  rw [resolve, if_pos hgo]
  exact settles_retryOnBogus 0 opts.retries

/-- With the TTLs asked for, the first answer is returned, whatever it holds. -/
theorem resolve_ttl (httl : asksTTL method args = true)
    (lookups : ℕ → Except String (List (String × ℕ))) :
    resolve range opts (answers method args lookups) method args =
      ⟨[(method, args)], answers method args lookups 0⟩ := by
  rw [resolve]
  split
  · rw [retryOnBogus]
    cases hfirst : lookups 0 with
    | error error => simp [answers, hfirst, Except.map]
    | ok addresses => simp [answers, hfirst, Except.map, hasBogusIPs_shape_ttl httl]
  · rfl

/-- **Bogus addresses are seen, and an answer that holds one is retried while retries remain,
exactly if no TTLs were asked for or the first answer holds no bogus address.** -/
theorem bogus_retried_iff (range : String → Option String) (opts : Options) (method : String)
    (args : List Arg) (hfilter : shouldFilterResolve method args = true)
    (lookups : ℕ → Except String (List (String × ℕ))) :
    let queries := (resolve range opts (answers method args lookups) method args).calls.length
    (∀ i < queries, ∀ addresses, lookups i = .ok addresses →
        (hasBogusIPs range (shape method args addresses) opts.ranges (some opts.ips) = true ↔
          ∃ a ∈ addresses, BogusAddress range opts a.1) ∧
        ((∃ a ∈ addresses, BogusAddress range opts a.1) → (i : ℤ) < opts.retries →
          i + 1 < queries)) ↔
      (asksTTL method args = false ∨
        ∀ addresses, lookups 0 = .ok addresses →
          ∀ a ∈ addresses, ¬ BogusAddress range opts a.1) := by
  intro queries
  by_cases hlists : 0 < opts.ranges.length ∨ 0 < opts.ips.length
  · have hsettles := settles_resolve range (answers method args lookups) hfilter hlists
    constructor
    · rw [or_iff_not_imp_left, Bool.not_eq_false]
      intro hall httl addresses haddresses a ha hbogus
      have hverdict := (hall 0 hsettles.calls_pos addresses haddresses).1.mpr ⟨a, ha, hbogus⟩
      rw [hasBogusIPs_shape_ttl httl] at hverdict
      cases hverdict
    · intro hcond i hi addresses haddresses
      cases httl : asksTTL method args with
      | false =>
          have hanswer : answers method args lookups (0 + i) =
              .ok (shape method args addresses) := by
            simp [answers, haddresses, Except.map]
          have hverdict := hasBogusIPs_shape range opts httl addresses
          exact ⟨hverdict, fun hbogus hleft =>
            (hsettles.retried_iff i hi _ hanswer).mpr ⟨hleft, hverdict.mpr hbogus⟩⟩
      | true =>
          have hclean : ∀ addresses, lookups 0 = .ok addresses →
              ∀ a ∈ addresses, ¬ BogusAddress range opts a.1 :=
            hcond.resolve_left (by simp [httl])
          have hone : queries = 1 := congrArg (fun result => result.calls.length)
            (resolve_ttl httl lookups)
          obtain rfl : i = 0 := by omega
          have hnone : ¬ ∃ a ∈ addresses, BogusAddress range opts a.1 :=
            fun ⟨a, ha, hbogus⟩ => hclean addresses haddresses a ha hbogus
          refine ⟨?_, fun hbogus => absurd hbogus hnone⟩
          rw [hasBogusIPs_shape_ttl httl]
          exact iff_of_false Bool.false_ne_true hnone
  · have hclean := not_bogusAddress_of_empty range hlists
    refine iff_of_true ?_ (.inr fun _ _ a _ => hclean a.1)
    intro i _ addresses _
    constructor
    · cases httl : asksTTL method args with
      | false => exact hasBogusIPs_shape range opts httl addresses
      | true =>
          rw [hasBogusIPs_shape_ttl httl]
          exact iff_of_false Bool.false_ne_true fun ⟨a, _, hbogus⟩ => hclean a.1 hbogus
    · rintro ⟨a, -, hbogus⟩
      exact absurd hbogus (hclean a.1)

/-- The range of `127.0.0.1`. -/
def rangeLoopback (address : String) : Option String :=
  if address = "127.0.0.1" then some "loopback" else none

/-- A network that answers first `127.0.0.1` and then `1.1.1.1`. -/
def lookupsLoopback (i : ℕ) : Except String (List (String × ℕ)) :=
  .ok [(if i = 0 then "127.0.0.1" else "1.1.1.1", 60)]

theorem bogus_retried_loopback :
    1 < (resolve rangeLoopback ⟨none, none, none⟩
      (answers "resolve4" [.text "a.test"] lookupsLoopback) "resolve4"
      [.text "a.test"]).calls.length := by
  have hretried := (bogus_retried_iff rangeLoopback ⟨none, none, none⟩ "resolve4" [.text "a.test"]
    (by decide) lookupsLoopback).mpr (.inl (by decide))
  refine (hretried 0 (by decide +kernel) [("127.0.0.1", 60)] rfl).2 ?_ (by decide)
  exact ⟨_, List.mem_singleton_self _, .inr ⟨"loopback", rfl, by decide⟩⟩

/-- Asked for with its TTL, the loopback address is returned. -/
theorem bogus_returned_ttl :
    ¬ ∀ (range : String → Option String) (opts : Options) (method : String) (args : List Arg),
      shouldFilterResolve method args = true →
      ∀ lookups : ℕ → Except String (List (String × ℕ)),
        let queries := (resolve range opts (answers method args lookups) method args).calls.length
        ∀ i < queries, ∀ addresses, lookups i = .ok addresses →
          (∃ a ∈ addresses, BogusAddress range opts a.1) → (i : ℤ) < opts.retries →
          i + 1 < queries := by
  intro hall
  have hretried := hall rangeLoopback ⟨none, none, none⟩ "resolve4" [.text "a.test", .options true]
    (by decide) lookupsLoopback 0 (by decide +kernel) [("127.0.0.1", 60)] rfl
    ⟨_, List.mem_singleton_self _, .inr ⟨"loopback", rfl, by decide⟩⟩ (by decide)
  exact absurd hretried (by decide +kernel)

end Proxinator.Dns
