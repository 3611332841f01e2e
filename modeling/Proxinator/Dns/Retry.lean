import Proxinator.Dns
import Proxinator.Lib.Attempts

/-!
# The budget of bogus retries

`retryOnBogus` is retrying with a budget, whatever mixture of clean, bogus and failing answers
the network gives. A rejection or a clean answer stops it; the budget is `maxBogusRetries`,
where a negative number is none at all.
-/

namespace Proxinator.Dns

open Lib

variable {range : String → Option String} {opts : Options}

/-- An outcome that no retry follows: a rejection, or an answer without a bogus address. -/
def Final (range : String → Option String) (opts : Options) :
    Except String (List Record) → Prop
  | .error _ => True
  | .ok results => hasBogusIPs range results opts.ranges (some opts.ips) = false

/-- **The queries of `retryOnBogus` are attempts with a budget.** -/
theorem retryOnBogus_attempts (range : String → Option String) (opts : Options)
    (lookups : ℕ → Except String (List Record)) (method : String) (args : List Arg) (call : ℕ)
    (retriesLeft : ℤ) :
    ∃ k, LastAttempt (fun i => Final range opts (lookups (call + i))) retriesLeft.toNat k ∧
      retryOnBogus range opts lookups method args call retriesLeft =
        ⟨List.replicate (k + 1) (method, args), lookups (call + k)⟩ := by
  fun_induction retryOnBogus range opts lookups method args call retriesLeft with
  | case1 call retriesLeft error herror =>
      refine ⟨0, .of_stops ?_, ?_⟩
      · simp [herror, Final]
      · simp [herror]
  | case2 call retriesLeft results hresults hstop =>
      refine ⟨0, ?_, ?_⟩
      · rcases hstop with hexhausted | hclean
        · rw [Int.toNat_of_nonpos hexhausted]
          exact .of_exhausted
        · exact .of_stops (by simpa [hresults, Final] using hclean)
      · simp [hresults]
  | case3 call retriesLeft results hresults hgo retried ih =>
      simp only [not_or, not_le, Bool.not_eq_false] at hgo
      obtain ⟨hpos, hbogus⟩ := hgo
      obtain ⟨k, hlast, hretried⟩ := ih
      have hshift : ∀ i, call + 1 + i = call + (i + 1) := by omega
      simp only [hshift] at hlast hretried
      have hbudget : retriesLeft.toNat = (retriesLeft - 1).toNat + 1 := by omega
      refine ⟨k + 1, ?_, ?_⟩
      · rw [hbudget]
        refine .of_retry ?_ hlast
        simp [hresults, Final, hbogus]
      · rw [show retried = _ from hretried]
        rfl

/-- **Bogus retries return the first clean answer within the budget.** -/
theorem retryOnBogus_first (range : String → Option String) (opts : Options)
    (lookups : ℕ → Except String (List Record)) (method : String) (args : List Arg) (n : ℤ) :
    ∃ k : ℕ,
      (IsLeast {i : ℕ | (i : ℤ) ≤ max n 0 ∧ Final range opts (lookups i)} k ∨
        (k : ℤ) = max n 0 ∧ ∀ i : ℕ, (i : ℤ) ≤ max n 0 → ¬ Final range opts (lookups i)) ∧
      (k : ℤ) ≤ max n 0 ∧
      (retryOnBogus range opts lookups method args 0 n).calls =
        List.replicate (k + 1) (method, args) ∧
      (retryOnBogus range opts lookups method args 0 n).outcome = lookups k := by
  obtain ⟨k, hlast, hretried⟩ := retryOnBogus_attempts range opts lookups method args 0 n
  simp only [Nat.zero_add] at hlast hretried
  have hbudget : max n 0 = n.toNat := by omega
  simp only [hbudget, Int.ofNat_le, Int.ofNat_inj]
  exact ⟨k, hlast.isLeast_or_exhausted, hlast.le_budget, by rw [hretried], by rw [hretried]⟩

/-- A bogus answer is retried, and the clean one behind it is returned. -/
example :
    let range := fun address => some (if address = "127.0.0.1" then "loopback" else "unicast")
    let lookups := fun call =>
      Except.ok [Record.text (if call = 0 then "127.0.0.1" else "93.184.216.34")]
    (retryOnBogus range ⟨none, none, none⟩ lookups "resolve4" [.text "a.test"] 0 3).calls =
        List.replicate 2 ("resolve4", [.text "a.test"]) ∧
      (retryOnBogus range ⟨none, none, none⟩ lookups "resolve4" [.text "a.test"] 0 3).outcome =
        .ok [.text "93.184.216.34"] := by
  simp [retryOnBogus, hasBogusIPs, isBogusIP, Options.ranges, Options.ips, defaultBogusRanges,
    defaultBogusIPs]

end Proxinator.Dns
