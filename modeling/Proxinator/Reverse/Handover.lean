import Proxinator.Reverse.Overlap

/-!
# Handing the client's stream on to the target

Before `bind` the head takes what is read, and the target is given none of it; `bind` writes the
head, and from then on every chunk is piped. So the target is given the client's stream in full,
each byte once, exactly if no two calls of `waitSNI` share a chunk and no two tunnels the
connection (`handedOn_iff`).
-/

namespace Proxinator.Reverse

open Lib

namespace Connection

/-- The connection was bound. -/
def Bound (c : Connection) : Prop := .pipe ∈ c.dataListeners

instance (c : Connection) : Decidable c.Bound := inferInstanceAs (Decidable (_ ∈ _))

/-- What the target was given. -/
def handedOn (c : Connection) : Bytes := (c.written ++ c.piped).flatten

/-- **What has been consumed is in the head until `bind`, and was given to the target from then
on.** -/
def HandsOn (chunks : List Bytes) (c : Connection) : Prop :=
  (if c.Bound then c.handedOn else c.head) = consumed chunks c

/-- A chunk is read by one call of `waitSNI` before `bind` and by one tunnel after it, and a
connection that has a head is bound once. -/
def ReadOnce (c : Connection) (e : Event) : Prop :=
  (c.Delivers e → if c.Bound then c.dataListeners.count .pipe = 1 else c.listening = 1) ∧
    (e = .bind → c.Bound → c.head = [])

/-! ## One step -/

/-- What an event other than a chunk or `bind` leaves alone. -/
def handed (c : Connection) : List Bytes × List Bytes × ℕ :=
  (c.written, c.piped, c.dataListeners.count .pipe)

theorem handed_cleanup (c : Connection) (call : ℕ) : (c.cleanup call).handed = c.handed := by
  have hne : DataListener.pipe ≠ .waitSNI call := by simp
  simp only [handed, cleanup, List.count_erase_of_ne hne]

theorem handed_onData (c : Connection) (call : ℕ) (data : Bytes) :
    (c.onData call data).handed = c.handed := by
  have hcleanup := handed_cleanup { c with head := c.head ++ data } call
  rw [onData]
  dsimp only
  split_ifs
  · exact hcleanup
  · rfl
  · exact hcleanup

/-- A chunk is given to the target once for each pipe. -/
theorem piped_foldl (data : Bytes) (listeners : List DataListener) (c : Connection) :
    (listeners.foldl (callDataListener data) c).handed =
      (c.written, c.piped ++ List.replicate (listeners.count .pipe) data,
        c.dataListeners.count .pipe) := by
  induction listeners generalizing c with
  | nil => simp [handed]
  | cons listener listeners ih =>
      rw [List.foldl_cons, ih]
      cases listener with
      | waitSNI call =>
          have hcall := handed_onData c call data
          simp only [handed, Prod.mk.injEq] at hcall
          simp [callDataListener, hcall]
      | pipe => simp [callDataListener, List.replicate_succ]

theorem handed_step {c : Connection} {e : Event} (hdelivers : ¬ c.Delivers e) (hbind : e ≠ .bind) :
    (c.step e).handed = c.handed := by
  cases e with
  | waitSNI => simp [step, waitSNI, handed]
  | bind => exact absurd rfl hbind
  | «end» => rfl
  | read => rw [step, read_eq_self hdelivers]
  | timeout call =>
      rw [step, onTimeout]
      split_ifs
      · exact handed_cleanup c call
      · rfl
  | close =>
      rw [step, close]
      split_ifs
      · rfl
      · refine foldl_component handed (fun c listener => ?_) _ _
        cases listener with
        | server => rfl
        | waitSNI call => exact handed_cleanup c call
  | error code =>
      rcases error_eq c code with heq | ⟨emitted, uncaught, heq⟩
      · rw [step, heq]
      · rw [step, heq]
        rfl

/-- Nothing is given to the target before `bind`. -/
def Untargeted (c : Connection) : Prop := ¬ c.Bound → c.written = [] ∧ c.piped = []

theorem bound_iff_of_count {c c' : Connection}
    (h : c'.dataListeners.count .pipe = c.dataListeners.count .pipe) : c'.Bound ↔ c.Bound := by
  rw [Bound, Bound, ← List.count_pos_iff, ← List.count_pos_iff, h]

theorem handed_read {c : Connection} (h : c.Delivers .read) :
    ∃ data unread, c.unread = data :: unread ∧ c.read.unread = unread ∧
      c.read.head = c.head ++ (List.replicate c.listening data).flatten ∧
      c.read.handed = (c.written, c.piped ++ List.replicate (c.dataListeners.count .pipe) data,
        c.dataListeners.count .pipe) := by
  obtain ⟨data, unread, hunread, hread⟩ := exists_read_eq h
  refine ⟨data, unread, hunread, ?_⟩
  rw [hread]
  exact ⟨foldl_component Connection.unread (unread_callDataListener data) _ _,
    head_foldl data _ _, piped_foldl data _ _⟩

theorem untargeted_step {c : Connection} (h : c.Untargeted) (e : Event) :
    (c.step e).Untargeted := by
  intro hunbound
  by_cases hbind : e = .bind
  · subst hbind
    exact absurd (by simp [Bound, step, bind]) hunbound
  · by_cases hdelivers : c.Delivers e
    · obtain rfl : e = .read := hdelivers.1
      obtain ⟨data, unread, -, -, -, hhanded⟩ := handed_read hdelivers
      simp only [handed, Prod.mk.injEq] at hhanded
      have hnone : c.dataListeners.count .pipe = 0 := by
        rw [← hhanded.2.2, List.count_eq_zero]
        exact hunbound
      have hunbound' : ¬ c.Bound := by
        rw [Bound, ← List.count_eq_zero]
        exact hnone
      obtain ⟨hwritten, hpiped⟩ := h hunbound'
      rw [step, hhanded.1, hhanded.2.1, hwritten, hpiped, hnone]
      simp
    · have hhanded := handed_step hdelivers hbind
      simp only [handed, Prod.mk.injEq] at hhanded
      rw [bound_iff_of_count hhanded.2.2] at hunbound
      rw [hhanded.1, hhanded.2.1]
      exact h hunbound

/-- `bind` gives the head to the target, behind what it was given before. -/
theorem length_handedOn_bind (c : Connection) :
    c.bind.handedOn.length = c.handedOn.length + c.head.length := by
  rw [handedOn, handedOn, bind]
  split_ifs with hhead
  · simp only [List.flatten_append, List.length_append, List.flatten_singleton]
    omega
  · simp only [List.flatten_append, List.length_append]
    omega

/-- `bind` keeps the stream in full exactly if the head was not given before. -/
theorem handsOn_bind_iff {chunks : List Bytes} {c : Connection} (huntargeted : c.Untargeted)
    (h : c.HandsOn chunks) : c.bind.HandsOn chunks ↔ (c.Bound → c.head = []) := by
  have hbound : c.bind.Bound := by simp [Bound, bind]
  rw [HandsOn] at h
  rw [HandsOn, if_pos hbound]
  change c.bind.handedOn = consumed chunks c ↔ _
  by_cases hc : c.Bound
  · rw [if_pos hc] at h
    rw [← h]
    constructor
    · intro heq _
      have hlength := congrArg List.length heq
      rw [length_handedOn_bind] at hlength
      exact List.length_eq_zero_iff.mp (by omega)
    · intro hhead
      simp [handedOn, bind, hhead hc]
  · rw [if_neg hc] at h
    obtain ⟨hwritten, hpiped⟩ := huntargeted hc
    refine iff_of_true ?_ fun hc' => absurd hc' hc
    rw [← h, handedOn, bind, hwritten, hpiped]
    by_cases hhead : c.head = []
    · simp [hhead]
    · simp [List.length_pos_iff.mpr hhead]

/-- **A step keeps the stream in full exactly if it reads a chunk once.** -/
theorem handsOn_step_iff {chunks : List Bytes} (hchunks : [] ∉ chunks) {c : Connection} {e : Event}
    (hsuffix : c.unread <:+ chunks) (huntargeted : c.Untargeted) (h : c.HandsOn chunks) :
    (c.step e).HandsOn chunks ↔ c.ReadOnce e := by
  by_cases hbind : e = .bind
  · subst hbind
    have hnot : ¬ c.Delivers .bind := fun hd => by cases hd.1
    rw [step, handsOn_bind_iff huntargeted h, ReadOnce]
    simp [hnot]
  by_cases hdelivers : c.Delivers e
  · obtain rfl : e = .read := hdelivers.1
    obtain ⟨data, unread, hunread, hunread', hhead, hhanded⟩ := handed_read hdelivers
    simp only [handed, Prod.mk.injEq] at hhanded
    obtain ⟨hwritten, hpiped, hcount⟩ := hhanded
    have hdata : data ≠ [] := by
      rintro rfl
      exact hchunks (hsuffix.subset (hunread ▸ List.mem_cons_self))
    have hbound := bound_iff_of_count hcount
    have hgiven : c.read.handedOn =
        c.handedOn ++ (List.replicate (c.dataListeners.count .pipe) data).flatten := by
      rw [handedOn, handedOn, hwritten, hpiped]
      simp
    rw [HandsOn] at h
    rw [step, HandsOn, consumed_read hsuffix hunread hunread', ReadOnce]
    simp only [hdelivers, forall_const, reduceCtorEq, false_implies, and_true, hbound]
    by_cases hc : c.Bound
    · rw [if_pos hc] at h
      rw [if_pos hc, if_pos hc, hgiven, h, List.append_cancel_left_eq,
        flatten_replicate_eq_iff hdata]
    · rw [if_neg hc] at h
      rw [if_neg hc, if_neg hc, hhead, h, List.append_cancel_left_eq,
        flatten_replicate_eq_iff hdata]
  · have hhanded := handed_step hdelivers hbind
    have hstream := stream_step hdelivers
    simp only [handed, Prod.mk.injEq] at hhanded
    simp only [stream, Prod.mk.injEq] at hstream
    refine iff_of_true ?_ ⟨fun hd => absurd hd hdelivers, fun hb => absurd hb hbind⟩
    rw [HandsOn] at h ⊢
    simp only [bound_iff_of_count hhanded.2.2, handedOn, hhanded.1, hhanded.2.1, hstream.1,
      consumed, hstream.2]
    exact h

/-! ## The run -/

/-- **In every run the target is given the client's stream in full, each byte once, exactly if
every chunk is read once**: what has been consumed is in the head until `bind`, and what the
target was given from then on. -/
theorem handedOn_iff {S : Bytes} (cut : Cut S) (events : List Event) :
    Throughout step (HandsOn cut.chunks) (accepted cut.chunks) events ↔
      Along step ReadOnce (accepted cut.chunks) events := by
  have hall : Along step (fun _ _ => True) (accepted cut.chunks) events :=
    Along.of_forall fun _ _ _ => trivial
  have hnew : (accepted cut.chunks).HandsOn cut.chunks := by
    simp [HandsOn, Bound, accepted, consumed]
  refine throughout_iff_along (Q := fun c => c.unread <:+ cut.chunks ∧ c.Untargeted) hall
    ⟨List.suffix_rfl, fun _ => ⟨rfl, rfl⟩⟩ hnew ?_ ?_
  · intro c e _ hc h
    exact handsOn_step_iff cut.nonempty hc.1 hc.2 h
  · intro c e _ hc _ _
    exact ⟨(unread_step c e).trans hc.1, untargeted_step hc.2 e⟩

/-- A stream of two chunks, of which the second is read after `bind`. -/
example : (run step (accepted [[22, 3, 1, 0, 4, 1, 0, 0, 0], [1, 2]])
    [.waitSNI, .read, .bind, .read]).handedOn = [22, 3, 1, 0, 4, 1, 0, 0, 0, 1, 2] := by
  decide +kernel

end Connection

end Proxinator.Reverse
