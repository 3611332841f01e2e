import Proxinator.Reverse.WaitSni

/-!
# Overlapping calls of `waitSNI`

Every pending call of `waitSNI` has a listener of its own, and each of them appends what it is
given to the one `_head`. All calls that resolve give the same hostname, whatever the run: the
head only grows, and the test they wait for is stable (`grows_step`). But a chunk is buffered
once for each call that listens (`head_read`), so that the head is what has been consumed
exactly as long as every chunk is read by one call (`buffered_iff`). One at least always listens
before the connection is bound or ended (`listening_run`).
-/

namespace Proxinator.Reverse

open Lib

/-- It is the listener of a call of `waitSNI`. -/
def DataListener.isWaitSNI : DataListener → Bool
  | .waitSNI _ => true
  | .pipe => false

namespace Connection

/-- How many calls of `waitSNI` listen for data. -/
def listening (c : Connection) : ℕ := c.dataListeners.countP DataListener.isWaitSNI

/-- The client bytes that have been consumed from the socket. -/
def consumed (chunks : List Bytes) (c : Connection) : Bytes :=
  received chunks (chunks.length - c.unread.length)

/-- **The head is what has been consumed, and all calls that resolved give the same hostname.** -/
structure Buffered (chunks : List Bytes) (c : Connection) : Prop where
  head_eq : c.head = consumed chunks c
  agree : ∀ (i j : ℕ) (domain domain' : Option String), c.calls[i]? = some (.resolved domain) →
    c.calls[j]? = some (.resolved domain') → domain = domain'

/-- The socket emits a chunk on the event. -/
def Delivers (c : Connection) (e : Event) : Prop :=
  e = .read ∧ c.flowing = true ∧ c.destroyed = false ∧ c.unread ≠ []

/-- A chunk that is read is read by one call of `waitSNI`. -/
def ReadByOne (c : Connection) (e : Event) : Prop := c.Delivers e → c.listening = 1

/-! ## The head grows -/

/-- What happens to a connection: bytes are appended to its head, and a call resolves only with
the hostname of a head that passes the test. -/
structure Grows (c c' : Connection) : Prop where
  head_grows : c.head <+: c'.head
  resolved : ∀ (i : ℕ) (domain : Option String), c'.calls[i]? = some (.resolved domain) →
    c.calls[i]? = some (.resolved domain) ∨
      ready c'.head = true ∧ domain = Sni.parseSNI c'.head

theorem Grows.trans {c c' c'' : Connection} (h : Grows c c') (h' : Grows c' c'') :
    Grows c c'' := by
  refine ⟨h.head_grows.trans h'.head_grows, fun i domain hi => ?_⟩
  rcases h'.resolved i domain hi with hi' | hnew
  · rcases h.resolved i domain hi' with hold | ⟨hready, rfl⟩
    · exact Or.inl hold
    · obtain ⟨hready', hhost⟩ := ready_mono hready h'.head_grows
      exact Or.inr ⟨hready', hhost.symm⟩
  · exact Or.inr hnew

/-- Nothing happens to the head and to the calls. -/
theorem Grows.of_eq {c c' : Connection} (hhead : c'.head = c.head) (hcalls : c'.calls = c.calls) :
    Grows c c' :=
  ⟨hhead ▸ List.prefix_rfl, fun _ _ hi => Or.inl (hcalls ▸ hi)⟩

/-- Handlers in a row. -/
theorem Grows.foldl {α : Type*} {f : Connection → α → Connection}
    (hf : ∀ c a, Grows c (f c a)) (as : List α) (c : Connection) : Grows c (as.foldl f c) := by
  induction as generalizing c with
  | nil => exact Grows.of_eq rfl rfl
  | cons a as ih => exact (hf c a).trans (ih (f c a))

theorem Grows.settle (c : Connection) (call : ℕ) {result : Settlement}
    (h : ∀ domain, result = .resolved domain →
      ready c.head = true ∧ domain = Sni.parseSNI c.head) :
    Grows c (c.settle call result) := by
  refine ⟨List.prefix_rfl, fun i domain hi => ?_⟩
  rw [Connection.settle, List.getElem?_modify] at hi
  obtain ⟨settled, hsettled, hnew⟩ := Option.map_eq_some_iff.mp hi
  by_cases hpending : call = i ∧ settled = .pending
  · right
    refine h domain ?_
    simpa [hpending.1, hpending.2] using hnew
  · left
    rw [hsettled]
    by_cases hcall : call = i
    · have hsame : settled ≠ .pending := fun heq => hpending ⟨hcall, heq⟩
      simpa [hcall, hsame] using hnew
    · simpa [hcall] using hnew

/-- A call is rejected. -/
theorem Grows.reject (c : Connection) (call : ℕ) (message : String) :
    Grows c (c.settle call (.rejected message)) :=
  Grows.settle c call (by simp)

theorem Grows.onData (c : Connection) (call : ℕ) (data : Bytes) : Grows c (c.onData call data) := by
  have happend : Grows c { c with head := c.head ++ data } :=
    ⟨List.prefix_append _ _, fun _ _ hi => Or.inl hi⟩
  rw [Connection.onData]
  refine happend.trans ?_
  dsimp only
  split_ifs with hready hsize
  · refine Grows.trans ?_ (Grows.reject _ call _)
    exact Grows.of_eq rfl rfl
  · exact Grows.of_eq rfl rfl
  · have hresolves : ∀ domain, Settlement.resolved (Sni.parseSNI (c.head ++ data)) =
        .resolved domain →
        ready (c.head ++ data) = true ∧ domain = Sni.parseSNI (c.head ++ data) := by
      rintro domain ⟨⟩
      exact ⟨by simpa using hready, rfl⟩
    have hsettle := Grows.settle (({ c with head := c.head ++ data } : Connection).cleanup call)
      call hresolves
    exact ⟨hsettle.head_grows, hsettle.resolved⟩

theorem Grows.callDataListener (data : Bytes) (c : Connection) (listener : DataListener) :
    Grows c (c.callDataListener data listener) := by
  cases listener with
  | waitSNI call => exact Grows.onData c call data
  | pipe => exact Grows.of_eq rfl rfl

theorem Grows.callCloseListener (c : Connection) (listener : CloseListener) :
    Grows c (c.callCloseListener listener) := by
  cases listener with
  | server => exact Grows.of_eq rfl rfl
  | waitSNI call =>
      refine Grows.trans ?_ (Grows.reject _ call _)
      exact Grows.of_eq rfl rfl

/-- An error destroys the socket, and is reported or thrown. -/
theorem error_eq (c : Connection) (code : Option String) :
    c.error code = c ∨ ∃ emitted uncaught,
      c.error code = { c with destroyed := true, emitted := emitted, uncaught := uncaught } := by
  have hiterate : ∀ (n : ℕ) (c : Connection), ∃ emitted,
      Nat.iterate (onError code) n c = { c with emitted := emitted } := by
    intro n
    induction n with
    | zero => exact fun c => ⟨c.emitted, rfl⟩
    | succ n ih =>
        intro c
        obtain ⟨emitted, hemitted⟩ := ih (c.onError code)
        refine ⟨emitted, hemitted.trans ?_⟩
        rw [onError]
        split_ifs
        · rfl
        · rfl
  rw [error]
  split_ifs
  · exact Or.inl rfl
  · exact Or.inr ⟨c.emitted, true, rfl⟩
  · obtain ⟨emitted, hemitted⟩ := hiterate c.errorListeners { c with destroyed := true }
    exact Or.inr ⟨emitted, c.uncaught, hemitted⟩

/-- **Every step grows the head.** -/
theorem grows_step (c : Connection) (e : Event) : Grows c (c.step e) := by
  cases e with
  | waitSNI =>
      refine ⟨List.prefix_rfl, fun i domain hi => ?_⟩
      simp only [step, waitSNI, List.getElem?_append] at hi
      split_ifs at hi with hlt
      · exact Or.inl hi
      · obtain ⟨hi', hpending⟩ := List.getElem?_eq_some_iff.mp hi
        simp at hpending
  | bind => exact Grows.of_eq rfl rfl
  | «end» => exact Grows.of_eq rfl rfl
  | read =>
      rw [step, read]
      split_ifs
      · cases hunread : c.unread with
        | nil => exact Grows.of_eq rfl rfl
        | cons data unread =>
            refine Grows.trans ?_ (Grows.foldl (Grows.callDataListener data) _ _)
            exact Grows.of_eq rfl rfl
      · exact Grows.of_eq rfl rfl
  | timeout call =>
      rw [step, onTimeout]
      split_ifs
      · refine Grows.trans ?_ (Grows.reject _ call _)
        exact Grows.of_eq rfl rfl
      · exact Grows.of_eq rfl rfl
  | close =>
      rw [step, close]
      split_ifs
      · exact Grows.of_eq rfl rfl
      · refine Grows.trans ?_ (Grows.foldl Grows.callCloseListener _ _)
        exact Grows.of_eq rfl rfl
  | error code =>
      rw [step]
      rcases error_eq c code with heq | ⟨emitted, uncaught, heq⟩
      · rw [heq]
        exact Grows.of_eq rfl rfl
      · rw [heq]
        exact Grows.of_eq rfl rfl

/-! ## What a chunk adds to the head -/

/-- Nothing but a `data` listener of `waitSNI` changes the head. -/
theorem head_callDataListener (data : Bytes) (c : Connection) (listener : DataListener) :
    (c.callDataListener data listener).head =
      if listener.isWaitSNI then c.head ++ data else c.head := by
  cases listener with
  | waitSNI call =>
      simp only [callDataListener, onData, DataListener.isWaitSNI, if_true]
      split_ifs
      · rfl
      · rfl
      · rfl
  | pipe => rfl

/-- **A chunk is buffered once for each call of `waitSNI` that listens.** -/
theorem head_foldl (data : Bytes) (listeners : List DataListener) (c : Connection) :
    (listeners.foldl (callDataListener data) c).head =
      c.head ++ (List.replicate (listeners.countP DataListener.isWaitSNI) data).flatten := by
  induction listeners generalizing c with
  | nil => simp
  | cons listener listeners ih =>
      rw [List.foldl_cons, ih, head_callDataListener, List.countP_cons]
      by_cases hlistener : listener.isWaitSNI = true
      · simp [hlistener, List.replicate_succ]
      · simp [hlistener]

theorem unread_callDataListener (data : Bytes) (c : Connection) (listener : DataListener) :
    (c.callDataListener data listener).unread = c.unread := by
  cases listener with
  | waitSNI call =>
      simp only [callDataListener, onData]
      split_ifs
      · rfl
      · rfl
      · rfl
  | pipe => rfl

/-- The listeners are called with the chunk that the socket emits. -/
theorem exists_read_eq {c : Connection} (h : c.Delivers .read) :
    ∃ data unread, c.unread = data :: unread ∧
      c.read = c.dataListeners.foldl (callDataListener data) { c with unread := unread } := by
  obtain ⟨-, hflowing, hdestroyed, hne⟩ := h
  obtain ⟨data, unread, hunread⟩ := List.exists_cons_of_ne_nil hne
  refine ⟨data, unread, hunread, ?_⟩
  simp [read, hflowing, hdestroyed, hunread]

/-- Without a chunk nothing is read. -/
theorem read_eq_self {c : Connection} (h : ¬ c.Delivers .read) : c.read = c := by
  rw [read]
  split_ifs with hflows
  · cases hunread : c.unread with
    | nil => rfl
    | cons data unread =>
        simp only [Bool.and_eq_true, Bool.not_eq_true'] at hflows
        exact absurd ⟨rfl, hflows.1, hflows.2, by simp [hunread]⟩ h
  · rfl

/-- The head and what is unread. -/
def stream (c : Connection) : Bytes × List Bytes := (c.head, c.unread)

/-- A step without a chunk leaves the head and what is unread alone. -/
theorem stream_step {c : Connection} {e : Event} (h : ¬ c.Delivers e) :
    (c.step e).stream = c.stream := by
  cases e with
  | waitSNI => rfl
  | bind => rfl
  | «end» => rfl
  | read => rw [step, read_eq_self h]
  | timeout call =>
      rw [step, onTimeout]
      split_ifs
      · rfl
      · rfl
  | close =>
      rw [step, close]
      split_ifs
      · rfl
      · refine foldl_component stream (fun c listener => ?_) _ _
        cases listener with
        | server => rfl
        | waitSNI call => rfl
  | error code =>
      rw [step]
      rcases error_eq c code with heq | ⟨emitted, uncaught, heq⟩
      · rw [heq]
      · rw [heq]
        rfl

/-- What is unread is a suffix of what was. -/
theorem unread_step (c : Connection) (e : Event) : (c.step e).unread <:+ c.unread := by
  by_cases hdelivers : c.Delivers e
  · obtain rfl : e = .read := hdelivers.1
    obtain ⟨data, unread, hunread, hread⟩ := exists_read_eq hdelivers
    rw [step, hread, foldl_component Connection.unread (unread_callDataListener data), hunread]
    exact List.suffix_cons data unread
  · have hstream := stream_step hdelivers
    simp only [stream, Prod.mk.injEq] at hstream
    rw [hstream.2]

/-! ## The head and the consumed bytes -/

/-- What has been consumed and what is unread make up the stream. -/
theorem consumed_append {chunks : List Bytes} {c : Connection} (h : c.unread <:+ chunks) :
    consumed chunks c ++ c.unread.flatten = chunks.flatten := by
  obtain ⟨pre, rfl⟩ := h
  have hlength : (pre ++ c.unread).length - c.unread.length = pre.length := by
    rw [List.length_append]
    omega
  rw [consumed, hlength, received, List.take_left, List.flatten_append]

/-- The chunk that is read has been consumed. -/
theorem consumed_read {chunks : List Bytes} {c c' : Connection} {data : Bytes}
    {unread : List Bytes} (h : c.unread <:+ chunks) (hunread : c.unread = data :: unread)
    (hunread' : c'.unread = unread) : consumed chunks c' = consumed chunks c ++ data := by
  have hsuffix : c'.unread <:+ chunks := by
    rw [hunread']
    exact (List.suffix_cons data unread).trans (hunread ▸ h)
  have hbefore := consumed_append h
  rw [← consumed_append hsuffix, hunread, hunread', List.flatten_cons, ← List.append_assoc]
    at hbefore
  exact (List.append_cancel_right hbefore).symm

/-- A chunk that is not empty is buffered once if it is buffered by one. -/
theorem flatten_replicate_eq_iff {data : Bytes} (hdata : data ≠ []) (n : ℕ) :
    (List.replicate n data).flatten = data ↔ n = 1 := by
  constructor
  · intro heq
    have hlength := congrArg List.length heq
    have hpos := List.length_pos_iff.mpr hdata
    rw [List.length_flatten, List.map_replicate, List.sum_replicate_nat] at hlength
    exact Nat.eq_of_mul_eq_mul_right hpos (hlength.trans (Nat.one_mul _).symm)
  · rintro rfl
    simp

/-- **The head stays what has been consumed exactly if the chunk is read by one call.** -/
theorem head_step_iff {chunks : List Bytes} (hchunks : [] ∉ chunks) {c : Connection} {e : Event}
    (hsuffix : c.unread <:+ chunks) (hhead : c.head = consumed chunks c) :
    (c.step e).head = consumed chunks (c.step e) ↔ c.ReadByOne e := by
  by_cases hdelivers : c.Delivers e
  · obtain rfl : e = .read := hdelivers.1
    obtain ⟨data, unread, hunread, hread⟩ := exists_read_eq hdelivers
    have hdata : data ≠ [] := by
      rintro rfl
      exact hchunks (hsuffix.subset (hunread ▸ List.mem_cons_self))
    have hunread' : c.read.unread = unread := by
      rw [hread]
      exact foldl_component Connection.unread (unread_callDataListener data) _ _
    have hhead' : c.read.head = c.head ++ (List.replicate c.listening data).flatten := by
      rw [hread]
      exact head_foldl data _ _
    rw [step, hhead', consumed_read hsuffix hunread hunread', hhead, List.append_cancel_left_eq,
      flatten_replicate_eq_iff hdata]
    exact ⟨fun hone _ => hone, fun hone => hone hdelivers⟩
  · have hstream := stream_step hdelivers
    simp only [stream, Prod.mk.injEq] at hstream
    refine iff_of_true ?_ fun h => absurd h hdelivers
    rw [hstream.1, consumed, hstream.2]
    exact hhead

/-! ## The hostnames -/

/-- Every call that resolved gave the hostname of the head. -/
def Resolutions (c : Connection) : Prop :=
  ∀ (i : ℕ) (domain : Option String), c.calls[i]? = some (.resolved domain) →
    ready c.head = true ∧ domain = Sni.parseSNI c.head

theorem Resolutions.step {c : Connection} (h : c.Resolutions) (e : Event) :
    (c.step e).Resolutions := by
  intro i domain hi
  have hgrows := grows_step c e
  rcases hgrows.resolved i domain hi with hold | hnew
  · obtain ⟨hready, rfl⟩ := h i domain hold
    obtain ⟨hready', hhost⟩ := ready_mono hready hgrows.head_grows
    exact ⟨hready', hhost.symm⟩
  · exact hnew

theorem Resolutions.agree {c : Connection} (h : c.Resolutions) (i j : ℕ)
    (domain domain' : Option String) (hi : c.calls[i]? = some (.resolved domain))
    (hj : c.calls[j]? = some (.resolved domain')) : domain = domain' :=
  (h i domain hi).2.trans (h j domain' hj).2.symm

/-! ## A call that listens -/

/-- A call listens for the next chunk, if there can be one. -/
def Listens (c : Connection) : Prop :=
  c.flowing = true → c.destroyed = false → 0 < c.listening

theorem Listens.onData {c : Connection} (h : c.Listens) (call : ℕ) (data : Bytes) :
    (c.onData call data).Listens := by
  rw [Connection.onData]
  dsimp only
  split_ifs
  · intro _ hdestroyed
    cases hdestroyed
  · exact h
  · intro hflowing
    cases hflowing

theorem Listens.foldl (data : Bytes) (listeners : List DataListener) {c : Connection}
    (h : c.Listens) : (listeners.foldl (callDataListener data) c).Listens := by
  induction listeners generalizing c with
  | nil => exact h
  | cons listener listeners ih =>
      refine ih ?_
      cases listener with
      | waitSNI call => exact h.onData call data
      | pipe => exact h

/-- **A call listens as long as the connection is neither bound nor ended.** -/
theorem Listens.step {c : Connection} (h : c.Listens) {e : Event} (hbind : e ≠ .bind)
    (hend : e ≠ .end) : (c.step e).Listens := by
  cases e with
  | waitSNI =>
      intro _ _
      simp [Connection.step, Connection.waitSNI, listening, DataListener.isWaitSNI]
  | bind => exact absurd rfl hbind
  | «end» => exact absurd rfl hend
  | read =>
      by_cases hdelivers : c.Delivers .read
      · obtain ⟨data, unread, -, hread⟩ := exists_read_eq hdelivers
        rw [Connection.step, hread]
        exact Listens.foldl data c.dataListeners h
      · rwa [Connection.step, read_eq_self hdelivers]
  | timeout call =>
      rw [Connection.step, onTimeout]
      split_ifs
      · intro _ hdestroyed
        cases hdestroyed
      · exact h
  | close =>
      rw [Connection.step, close]
      split_ifs
      · exact h
      · intro _ hdestroyed
        rw [foldl_component destroyed] at hdestroyed
        · cases hdestroyed
        · intro c listener
          cases listener with
          | server => rfl
          | waitSNI call => rfl
  | error code =>
      rcases error_eq c code with heq | ⟨emitted, uncaught, heq⟩
      · rwa [Connection.step, heq]
      · rw [Connection.step, heq]
        intro _ hdestroyed
        cases hdestroyed

/-- Before the connection is bound or ended no chunk is lost. -/
theorem listening_run (chunks : List Bytes) {events : List Event}
    (hevents : ∀ e ∈ events, e ≠ .bind ∧ e ≠ .end) :
    (run step (accepted chunks) events).Listens := by
  have halong : Along step (fun _ e => e ≠ .bind ∧ e ≠ .end) (accepted chunks) events :=
    Along.of_forall fun e he _ => hevents e he
  refine halong.invariant (fun c e he hc => hc.step he.1 he.2) ?_
  intro hflowing
  cases hflowing

/-! ## The run -/

/-- **In every run the head is at every moment what has been consumed, with one hostname for all
calls that resolve, exactly if every chunk is read by one call of `waitSNI`.** -/
theorem buffered_iff {S : Bytes} (cut : Cut S) (events : List Event) :
    Throughout step (Buffered cut.chunks) (accepted cut.chunks) events ↔
      Along step ReadByOne (accepted cut.chunks) events := by
  have hall : Along step (fun _ _ => True) (accepted cut.chunks) events :=
    Along.of_forall fun _ _ _ => trivial
  have hbuffered : Buffered cut.chunks (accepted cut.chunks) :=
    ⟨by simp [accepted, consumed], by simp [accepted]⟩
  have hresolutions : (accepted cut.chunks).Resolutions := by simp [Resolutions, accepted]
  have hsuffix : (accepted cut.chunks).unread <:+ cut.chunks := List.suffix_rfl
  refine throughout_iff_along (Q := fun c => c.unread <:+ cut.chunks ∧ c.Resolutions) hall
    ⟨hsuffix, hresolutions⟩ hbuffered ?_ ?_
  · rintro c e - ⟨hsuffix, hresolutions⟩ hbuffered
    rw [← head_step_iff cut.nonempty hsuffix hbuffered.head_eq]
    exact ⟨Buffered.head_eq, fun hhead => ⟨hhead, (hresolutions.step e).agree⟩⟩
  · rintro c e - ⟨hsuffix, hresolutions⟩ - -
    exact ⟨(unread_step c e).trans hsuffix, hresolutions.step e⟩

/-- A ClientHello. -/
private def hello : Cut ([22, 3, 1, 0, 4, 1, 0, 0, 0] : Bytes) :=
  ⟨[[22, 3, 1, 0, 4, 1, 0, 0, 0]], rfl, by decide⟩

/-- Two calls, and one chunk: `bind` writes it twice. -/
theorem not_buffered_twice :
    (run step (accepted hello.chunks) [.waitSNI, .waitSNI, .read, .bind]).written =
        [[22, 3, 1, 0, 4, 1, 0, 0, 0, 22, 3, 1, 0, 4, 1, 0, 0, 0]] ∧
      ¬ Throughout step (Buffered hello.chunks) (accepted hello.chunks)
        [.waitSNI, .waitSNI, .read] := by
  refine ⟨by decide +kernel, fun h => ?_⟩
  have hhead := h.last.head_eq
  have hne : (run step (accepted hello.chunks) [.waitSNI, .waitSNI, .read]).head ≠
      consumed hello.chunks (run step (accepted hello.chunks) [.waitSNI, .waitSNI, .read]) := by
    decide +kernel
  exact hne hhead

end Connection

end Proxinator.Reverse
