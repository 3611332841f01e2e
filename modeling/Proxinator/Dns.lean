import Mathlib.Data.Int.Order.Basic

/-!
# The DNS resolver

The resolver that rate-limits its queries and retries answers that hold a bogus address.
An answer is a list of records, and a record is an address or, when the caller asked for
TTLs, an object with one. What the network answers is a parameter: `lookups i` is the
outcome of the `i`-th query. So is `range`, the range that `ipaddr.parse(ip).range()` names
for a text, `none` where it throws; it throws on everything that is no text.
-/

namespace Proxinator.Dns

/-- ipaddr.js range names considered bogus for DNS responses. -/
def defaultBogusRanges : List String :=
  ["unspecified", "loopback", "private", "linkLocal", "carrierGradeNat", "multicast",
    "broadcast", "uniqueLocal"]

/-- Sinkhole addresses that censoring resolvers hand out instead of the real answer. -/
def defaultBogusIPs : List String :=
  ["81.200.2.238", "109.71.197.10", "104.77.161.196", "2.18.188.209"]

/-- Resolve methods that return addresses and should be filtered. -/
def ipMethods : List String := ["resolve4", "resolve6"]

/-- A record of an answer: a text, or an object `{ address, ttl }`. -/
inductive Record
  | text (address : String)
  | object (address : String) (ttl : ℕ)
  deriving DecidableEq, Repr

/-- The address that a record is about. -/
def Record.address : Record → String
  | .text address => address
  | .object address _ => address

/-- An argument of a resolve method: a text, or an object of options with its `ttl`. -/
inductive Arg
  | text (value : String)
  | options (ttl : Bool)
  deriving DecidableEq, Repr

/-- The options of a resolver. -/
structure Options where
  bogusRanges : Option (List String)
  bogusIPs : Option (List String)
  maxBogusRetries : Option ℤ
  deriving DecidableEq, Repr

/-- `bogusRanges` of a resolver. -/
def Options.ranges (opts : Options) : List String := opts.bogusRanges.getD defaultBogusRanges

/-- `bogusIPs` of a resolver. -/
def Options.ips (opts : Options) : List String := opts.bogusIPs.getD defaultBogusIPs

/-- `maxBogusRetries` of a resolver. -/
def Options.retries (opts : Options) : ℤ := opts.maxBogusRetries.getD 3

variable (range : String → Option String)

/-- Check if an address is a known sinkhole or falls within any of the bogus ranges. -/
def isBogusIP (ip : Record) (bogusRanges : List String) (bogusIPs : Option (List String)) : Bool :=
  match ip with
  | .text address =>
    (bogusIPs.any fun ips => ips.contains address) ||
      match range address with
      | some name => bogusRanges.contains name
      | none => false
  -- an object is in no list of texts, and `ipaddr.parse` throws on it
  | .object _ _ => false

/-- Check if any address in an answer is bogus. -/
def hasBogusIPs (results : List Record) (bogusRanges : List String)
    (bogusIPs : Option (List String)) : Bool :=
  results.any fun ip => isBogusIP range ip bogusRanges bogusIPs

/-- Determine if a call of a resolve method should be filtered for bogus addresses. -/
def shouldFilterResolve (method : String) (args : List Arg) : Bool :=
  if ipMethods.contains method then true
  else if method = "resolve" then
    match (args[1]? : Option Arg) with
    | none => true
    | some (.text rrtype) => rrtype = "" || rrtype = "A" || rrtype = "AAAA"
    | some (.options _) => false
  else false

/-- How a call of a resolver ends, and the queries it made. -/
structure Result where
  calls : List (String × List Arg)
  outcome : Except String (List Record)

/-- Retry a resolve call if its answer has bogus addresses; `call` queries were made before. -/
def retryOnBogus (opts : Options) (lookups : ℕ → Except String (List Record)) (method : String)
    (args : List Arg) (call : ℕ) (retriesLeft : ℤ) : Result :=
  match lookups call with
  | .error error => ⟨[(method, args)], .error error⟩
  | .ok results =>
    if retriesLeft ≤ 0 ∨ hasBogusIPs range results opts.ranges (some opts.ips) = false then
      ⟨[(method, args)], .ok results⟩
    else
      let retried := retryOnBogus opts lookups method args (call + 1) (retriesLeft - 1)
      { retried with calls := (method, args) :: retried.calls }
  termination_by retriesLeft.toNat
  decreasing_by omega

/-- A resolve method of the resolver. -/
def resolve (opts : Options) (lookups : ℕ → Except String (List Record)) (method : String)
    (args : List Arg) : Result :=
  if (0 < opts.ranges.length || 0 < opts.ips.length) && shouldFilterResolve method args then
    retryOnBogus range opts lookups method args 0 opts.retries
  else ⟨[(method, args)], lookups 0⟩

end Proxinator.Dns
