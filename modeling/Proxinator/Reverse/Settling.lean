import Proxinator.Reverse.Overlap
import Proxinator.Lib.Deadline
import Mathlib.Data.List.Count

/-!
# Every call of `waitSNI` settles

A call of `waitSNI` attaches a listener of `data` and one of `close`, and starts a timer. While
its promise is pending it has one of each, and none once that has settled (`Tidy`), whatever the
order of chunks, timeouts, closes and further calls. A promise settles once, is pending for ten
seconds at most, and is rejected for the time it took only after these (`waitSNI_settles`).

What an event other than a call does to the calls, `Settles` says once: it settles some of them,
each with its `cleanup`, and leaves the others alone.
-/

namespace Proxinator.Reverse

open Lib

/-- `SNI_TIMEOUT`. -/
@[simp] abbrev sniTimeout : ℕ := 10000

/-- A call is rejected because its time is over. -/
def timedOut : Settlement := .rejected "SNI timeout after 10000ms"

/-- How an event can settle a call. -/
def Event.Result : Event → ℕ → Settlement → Prop
  | .read, _, result => result ≠ .pending ∧ result ≠ timedOut
  | .timeout call, call', result => call' = call ∧ result = timedOut
  | .close, _, result => result ≠ .pending ∧ result ≠ timedOut
  | _, _, _ => False

theorem Event.Result.ne_pending {e : Event} {call : ℕ} {result : Settlement}
    (h : e.Result call result) : result ≠ .pending := by
  cases e with
  | read | close => exact h.1
  | timeout call' =>
      rw [h.2, timedOut]
      simp
  | waitSNI | bind | «end» | error => exact h.elim

/-- Nothing but its timer makes a call time out. -/
theorem Event.Result.eq_timeout {e : Event} {call : ℕ} (h : e.Result call timedOut) :
    e = .timeout call := by
  cases e with
  | read | close => exact absurd rfl h.2
  | timeout call' => rw [h.1]
  | waitSNI | bind | «end» | error => exact h.elim

namespace Connection

variable {c c' : Connection} {P : ℕ → Settlement → Prop}

/-- What a call is once one, maybe itself, has settled. -/
theorem settle_getElem? (c : Connection) (call call' : ℕ) (result : Settlement) :
    (c.settle call result).calls[call']? =
      if call' = call then
        c.calls[call']?.map fun settled => if settled = .pending then result else settled
      else c.calls[call']? := by
  rw [settle, List.getElem?_modify]
  by_cases hcall : call' = call
  · simp [hcall]
  · have hother : ¬ call = call' := fun heq => hcall heq.symm
    simp [hcall, hother]

/-! ## What an event does to the calls -/

/-- The calls, their timers and their listeners are the same. -/
structure Same (c c' : Connection) : Prop where
  calls_eq : c'.calls = c.calls
  timers_eq : c'.timers = c.timers
  data_eq : ∀ call, c'.dataListeners.count (.waitSNI call) = c.dataListeners.count (.waitSNI call)
  close_eq : c'.closeListeners = c.closeListeners

/-- Nothing that matters to the calls is changed. -/
theorem same_of_eq (hcalls : c'.calls = c.calls) (htimers : c'.timers = c.timers)
    (hdata : c'.dataListeners = c.dataListeners) (hclose : c'.closeListeners = c.closeListeners) :
    Same c c' :=
  ⟨hcalls, htimers, fun _ => by rw [hdata], hclose⟩

/-- Some calls settle, each with its `cleanup`, as `P` allows. -/
inductive Settles (P : ℕ → Settlement → Prop) (c : Connection) : Connection → Prop
  | same {c' : Connection} (h : Same c c') : Settles P c c'
  | finish {c' c'' : Connection} (h : Settles P c c') (call : ℕ) (result : Settlement)
      (hresult : P call result) (hsame : Same ((c'.cleanup call).settle call result) c'') :
      Settles P c c''

theorem Same.trans {c'' : Connection} (h : Same c c') (h' : Same c' c'') : Same c c'' :=
  ⟨h'.calls_eq.trans h.calls_eq, h'.timers_eq.trans h.timers_eq,
    fun call => (h'.data_eq call).trans (h.data_eq call), h'.close_eq.trans h.close_eq⟩

theorem Settles.refl (c : Connection) : Settles P c c := .same (same_of_eq rfl rfl rfl rfl)

theorem Settles.andSame {c'' : Connection} (h : Settles P c c') (h' : Same c' c'') :
    Settles P c c'' := by
  cases h with
  | same h => exact .same (h.trans h')
  | finish h call result hresult hsame => exact .finish h call result hresult (hsame.trans h')

/-- The listener of a call. -/
theorem Settles.onData (h : Settles Event.read.Result c c') (call : ℕ) (data : Bytes) :
    Settles Event.read.Result c (c'.onData call data) := by
  have hbuffered : Settles Event.read.Result c { c' with head := c'.head ++ data } :=
    h.andSame (same_of_eq rfl rfl rfl rfl)
  have hexceeds : Settlement.rejected
      ("ClientHello exceeds " ++ toString maxClientHelloSize ++ " bytes") ≠ timedOut := by
    decide
  rw [Connection.onData]
  dsimp only
  split_ifs
  · exact hbuffered.finish call _ ⟨by simp, hexceeds⟩ (same_of_eq rfl rfl rfl rfl)
  · exact hbuffered
  · refine hbuffered.finish call (.resolved (Sni.parseSNI (c'.head ++ data))) ⟨by simp, ?_⟩
      (same_of_eq rfl rfl rfl rfl)
    simp [timedOut]

/-- **An event other than a call settles some calls, and does nothing to the others.** -/
theorem settles_step (c : Connection) {e : Event} (he : e ≠ .waitSNI) :
    Settles e.Result c (c.step e) := by
  cases e with
  | waitSNI => exact absurd rfl he
  | bind =>
      refine .same ⟨rfl, rfl, fun call => ?_, rfl⟩
      simp [step, bind, List.count_append]
  | «end» => exact .same (same_of_eq rfl rfl rfl rfl)
  | read =>
      by_cases hread : c.Delivers .read
      · obtain ⟨data, unread, -, heq⟩ := exists_read_eq hread
        rw [step, heq]
        refine List.foldlRecOn (motive := Settles Event.read.Result c) _ _
          (.same (same_of_eq rfl rfl rfl rfl)) fun c' hc' listener _ => ?_
        cases listener with
        | waitSNI call => exact hc'.onData call data
        | pipe => exact hc'.andSame (same_of_eq rfl rfl rfl rfl)
      · rw [step, read_eq_self hread]
        exact .refl c
  | timeout call =>
      rw [step, onTimeout]
      split_ifs
      · exact (Settles.refl c).finish call timedOut ⟨rfl, rfl⟩ (same_of_eq rfl rfl rfl rfl)
      · exact .refl c
  | close =>
      rw [step, close]
      split_ifs
      · exact .refl c
      · refine List.foldlRecOn (motive := Settles Event.close.Result c) _ _
          (.same (same_of_eq rfl rfl rfl rfl)) fun c' hc' listener _ => ?_
        cases listener with
        | server => exact hc'.andSame (same_of_eq rfl rfl rfl rfl)
        | waitSNI call =>
            refine hc'.finish call (.rejected "Socket closed before SNI received") ⟨by simp, ?_⟩
              (same_of_eq rfl rfl rfl rfl)
            simp [timedOut]
  | error code =>
      rw [step]
      rcases error_eq c code with heq | ⟨emitted, uncaught, heq⟩
      · rw [heq]
        exact .refl c
      · rw [heq]
        exact .same (same_of_eq rfl rfl rfl rfl)


/-! ## Timers and listeners -/

/-- What a call has of each kind: one while it is pending. -/
def held (c : Connection) (call : ℕ) : ℕ := if c.calls[call]? = some .pending then 1 else 0

/-- **Pending calls have a timer and two listeners each, and the other calls have none.** -/
structure Tidy (c : Connection) : Prop where
  timers : ∀ call, c.timers.count call = c.held call
  data : ∀ call, c.dataListeners.count (.waitSNI call) = c.held call
  close : ∀ call, c.closeListeners.count (.waitSNI call) = c.held call

theorem tidy_accepted (chunks : List Bytes) : (accepted chunks).Tidy :=
  ⟨fun _ => rfl, fun _ => rfl, fun _ => rfl⟩

theorem Tidy.of_same (h : c.Tidy) (hsame : Same c c') : c'.Tidy := by
  have hheld : ∀ call, c'.held call = c.held call := by
    intro call
    rw [held, hsame.calls_eq, held]
  refine ⟨fun call => ?_, fun call => ?_, fun call => ?_⟩
  · rw [hheld, hsame.timers_eq, h.timers]
  · rw [hheld, hsame.data_eq, h.data]
  · rw [hheld, hsame.close_eq, h.close]

/-- What a call has once another one, or itself, has settled. -/
theorem held_settle {result : Settlement} (hresult : result ≠ .pending) (c : Connection)
    (call call' : ℕ) :
    (c.settle call result).held call' = if call' = call then 0 else c.held call' := by
  rw [held, settle_getElem?]
  by_cases hcall : call' = call
  · rw [if_pos hcall, if_pos hcall]
    cases c.calls[call']? with
    | none => rfl
    | some settled =>
        by_cases hpending : settled = .pending
        · simp [hpending, hresult]
        · simp [hpending]
  · rw [if_neg hcall, if_neg hcall, held]

/-- **A call that settles leaves nothing behind, and takes nothing from the others.** -/
theorem Tidy.finish (h : c.Tidy) (call : ℕ) {result : Settlement} (hresult : result ≠ .pending) :
    ((c.cleanup call).settle call result).Tidy := by
  have herase : ∀ {α : Type} [BEq α] [LawfulBEq α] (key : ℕ → α) (items : List α),
      Function.Injective key → (∀ call', items.count (key call') = c.held call') → ∀ call',
      (items.erase (key call)).count (key call') =
        ((c.cleanup call).settle call result).held call' := by
    intro α _ _ key items hinjective hcount call'
    rw [held_settle hresult]
    by_cases hcall : call' = call
    · subst hcall
      have hle : c.held call' ≤ 1 := by
        rw [held]
        split_ifs <;> omega
      rw [List.count_erase_self, hcount, if_pos rfl]
      omega
    · rw [List.count_erase_of_ne (fun heq => hcall (hinjective heq)), hcount, if_neg hcall]
      rfl
  exact ⟨herase id c.timers Function.injective_id h.timers,
    herase DataListener.waitSNI c.dataListeners (fun _ _ => DataListener.waitSNI.inj) h.data,
    herase CloseListener.waitSNI c.closeListeners (fun _ _ => CloseListener.waitSNI.inj) h.close⟩

theorem Tidy.waitSNI (h : c.Tidy) : c.waitSNI.Tidy := by
  have hheld : ∀ call, c.waitSNI.held call = c.held call + [c.calls.length].count call := by
    intro call
    rw [held, Connection.waitSNI, List.getElem?_append, held]
    by_cases hlt : call < c.calls.length
    · have hne : ¬ c.calls.length = call := by omega
      simp [hlt, hne]
    · by_cases heq : c.calls.length = call
      · subst heq
        simp
      · have hnone : [Settlement.pending][call - c.calls.length]? = none :=
          List.getElem?_eq_none (by simp only [List.length_singleton]; omega)
        simp [hlt, heq, hnone]
  refine ⟨fun call => ?_, fun call => ?_, fun call => ?_⟩
  · rw [hheld, ← h.timers, Connection.waitSNI, List.count_append]
  · rw [hheld, ← h.data, Connection.waitSNI, List.count_append]
    simp [List.count_cons]
  · rw [hheld, ← h.close, Connection.waitSNI, List.count_append]
    simp [List.count_cons]

/-- **Every step keeps timers and listeners with the pending calls.** -/
theorem tidy_step (h : c.Tidy) (e : Event) : (c.step e).Tidy := by
  by_cases he : e = .waitSNI
  · subst he
    exact h.waitSNI
  · generalize c.step e = c', settles_step c he = hsettles
    induction hsettles with
    | same hsame => exact h.of_same hsame
    | finish _ call result hresult hsame ih =>
        exact (ih.finish call (Event.Result.ne_pending hresult)).of_same hsame

/-! ## Settlements -/

/-- **What a call settles with is final.** -/
theorem settled_step {call : ℕ} {result : Settlement} (h : c.calls[call]? = some result)
    (hresult : result ≠ .pending) (e : Event) : (c.step e).calls[call]? = some result := by
  by_cases he : e = .waitSNI
  · subst he
    obtain ⟨hlt, -⟩ := List.getElem?_eq_some_iff.mp h
    exact (List.getElem?_append_left hlt).trans h
  · generalize c.step e = c', settles_step c he = hsettles
    induction hsettles with
    | same hsame => rwa [hsame.calls_eq]
    | @finish c₁ _ _ call' result' _ hsame ih =>
        have hkept := settle_getElem? (c₁.cleanup call') call' call result'
        rw [hsame.calls_eq, hkept]
        split_ifs
        · simp [cleanup, ih, hresult]
        · exact ih

/-- A call is made with the event `waitSNI`. -/
def makes (c : Connection) (e : Event) (call : ℕ) : Bool :=
  e = .waitSNI ∧ call = c.calls.length

/-- Only a call starts a timer. -/
theorem timers_step (c : Connection) (e : Event) (call : ℕ) (h : call ∈ (c.step e).timers) :
    call ∈ c.timers ∨ c.makes e call = true := by
  by_cases he : e = .waitSNI
  · subst he
    rcases List.mem_append.mp h with hold | hnew
    · exact Or.inl hold
    · exact Or.inr (by simpa [makes] using hnew)
  · left
    generalize c.step e = c', settles_step c he = hsettles at h
    induction hsettles with
    | same hsame => rwa [hsame.timers_eq] at h
    | finish _ call' result _ hsame ih =>
        rw [hsame.timers_eq] at h
        exact ih (List.mem_of_mem_erase h)

/-- Only its timer makes a call time out. -/
theorem timedOut_step (c : Connection) (e : Event) (call : ℕ)
    (h : (c.step e).calls[call]? = some timedOut) :
    c.makes e call = false ∧ (c.calls[call]? = some timedOut ∨ e = .timeout call) := by
  by_cases he : e = .waitSNI
  · subst he
    change (c.calls ++ [.pending])[call]? = some timedOut at h
    have hlt : call < c.calls.length := by
      by_contra hge
      rw [List.getElem?_append_right (Nat.le_of_not_lt hge)] at h
      have hmem := List.mem_of_getElem? h
      simp [timedOut] at hmem
    rw [List.getElem?_append_left hlt] at h
    exact ⟨by simp [makes, hlt.ne], Or.inl h⟩
  · refine ⟨by simp [makes, he], ?_⟩
    generalize c.step e = c', settles_step c he = hsettles at h
    induction hsettles with
    | same hsame => exact Or.inl (by rwa [hsame.calls_eq] at h)
    | @finish c₁ _ _ call' result hresult hsame ih =>
        have hkept := settle_getElem? (c₁.cleanup call') call' call result
        rw [hsame.calls_eq, hkept] at h
        split_ifs at h with hcall
        · obtain ⟨settled, hsettled, heq⟩ := Option.map_eq_some_iff.mp h
          split_ifs at heq
          · subst heq hcall
            exact Or.inr (Event.Result.eq_timeout hresult)
          · subst heq
            exact ih hsettled
        · exact ih h

/-! ## Under a clock -/

/-- A connection under a clock, which shows when each call was made. -/
def clocked (chunks : List Bytes) (events : List (Clocked.Event Event)) : Clocked Connection ℕ :=
  run (Clocked.step step makes) (Clocked.start (accepted chunks)) events

/-- The timers of the calls fire when their time has come. -/
def OnTime (chunks : List Bytes) (events : List (Clocked.Event Event)) : Prop :=
  Along (Clocked.step step makes)
    (Clocked.Punctual (fun c call => call ∈ c.timers) (fun e call => e = .timeout call) sniTimeout)
    (Clocked.start (accepted chunks)) events

/-- Timers and listeners are with the pending calls after every run. -/
theorem tidy_clocked (chunks : List Bytes) (events : List (Clocked.Event Event)) :
    (clocked chunks events).state.Tidy := by
  rw [clocked, Clocked.state_run]
  exact run_invariant (P := Tidy) (fun _ e h => tidy_step h e) (tidy_accepted chunks) _

/-- **Every call of `waitSNI` settles, once, in time, and leaves nothing behind.** Whatever the
order of calls, chunks, timeouts and closes: a call has one timer, one `data` listener and one
`close` listener while it is pending and none afterwards; if timers are on time, it is pending
for ten seconds at most, and was rejected for the time it took only after these; and whatever
happens later, what it settled with stays. -/
theorem waitSNI_settles (chunks : List Bytes) (events more : List (Clocked.Event Event))
    (h : OnTime chunks events) (call : ℕ) :
    ((clocked chunks events).state.timers.count call =
        (clocked chunks events).state.held call ∧
      (clocked chunks events).state.dataListeners.count (.waitSNI call) =
        (clocked chunks events).state.held call ∧
      (clocked chunks events).state.closeListeners.count (.waitSNI call) =
        (clocked chunks events).state.held call) ∧
    ((clocked chunks events).state.calls[call]? = some .pending →
      (clocked chunks events).now ≤ (clocked chunks events).since call + sniTimeout) ∧
    ((clocked chunks events).state.calls[call]? = some timedOut →
      (clocked chunks events).since call + sniTimeout ≤ (clocked chunks events).now) ∧
    ∀ result, (clocked chunks events).state.calls[call]? = some result → result ≠ .pending →
      (clocked chunks (events ++ more)).state.calls[call]? = some result := by
  have htidy := tidy_clocked chunks events
  refine ⟨⟨htidy.timers call, htidy.data call, htidy.close call⟩, fun hpending => ?_,
    fun hfired => ?_, fun result hresult hne => ?_⟩
  · have hmem : call ∈ (clocked chunks events).state.timers := by
      rw [← List.count_pos_iff, htidy.timers, held, if_pos hpending]
      exact Nat.one_pos
    exact Clocked.Punctual.running_le timers_step h (fun k hk => by cases hk) hmem
  · refine Clocked.Punctual.fired_le (P := fun c call => c.calls[call]? = some timedOut)
      timedOut_step h (fun k => ?_) hfired
    simp [Clocked.start, accepted]
  · rw [clocked, run_append, Clocked.state_run]
    exact run_invariant (P := fun c : Connection => c.calls[call]? = some result)
      (fun _ e hc => settled_step hc hne e) hresult _

/-- A call is made, and its ClientHello arrives in time. -/
private def inTime : List (Clocked.Event Event) :=
  .event .waitSNI :: List.replicate 3 .tick ++ [.event .read]

theorem waitSNI_settles_resolved :
    (clocked [[22, 3, 1, 0, 4, 1, 0, 0, 0]] inTime).state.calls[0]? = some (.resolved none) ∧
      (clocked [[22, 3, 1, 0, 4, 1, 0, 0, 0]] inTime).state.timers.count 0 = 0 ∧
      (clocked [[22, 3, 1, 0, 4, 1, 0, 0, 0]] (inTime ++ [.tick])).state.calls[0]? =
        some (.resolved none) := by
  have hontime : OnTime [[22, 3, 1, 0, 4, 1, 0, 0, 0]] inTime := by
    simp [OnTime, inTime, along_cons, Clocked.Punctual, Clocked.step, Clocked.start, accepted,
      step, waitSNI, makes, List.replicate]
  have hresolved : (clocked [[22, 3, 1, 0, 4, 1, 0, 0, 0]] inTime).state.calls[0]? =
      some (.resolved none) := by
    decide +kernel
  obtain ⟨⟨htimers, -, -⟩, -, -, hfinal⟩ :=
    waitSNI_settles [[22, 3, 1, 0, 4, 1, 0, 0, 0]] inTime [.tick] hontime 0
  refine ⟨hresolved, ?_, hfinal _ hresolved (by simp)⟩
  rw [htimers, held, hresolved]
  rfl

end Connection

end Proxinator.Reverse
