import Proxinator.Reverse
import Proxinator.Sni.Reassembly

/-!
# `waitSNI` and segmentation

One call of `waitSNI` on a stream that arrives in chunks. After `k` chunks the connection
is in one of three states: still `waiting`, `resolved` at a chunk before which nothing
stopped it, or `rejected` at one (`reads_cases`). The test it waits for is stable, so the
call settles with the same hostname for every cut of the stream (`waitSNI_segmentation`).
-/

namespace Proxinator.Reverse

open Lib

namespace Connection

/-- A connection on which `waitSNI` was called once, after `k` more read events. -/
def reads (chunks : List Bytes) (k : ℕ) : Connection :=
  run step (accepted chunks) (.waitSNI :: List.replicate k .read)

/-- The call waits; `k` chunks have been consumed. -/
def waiting (chunks : List Bytes) (k : ℕ) : Connection :=
  { accepted chunks with
    head := received chunks k
    unread := chunks.drop k
    flowing := true
    dataListeners := [.waitSNI 0]
    closeListeners := [.server, .waitSNI 0]
    timers := [0]
    calls := [.pending] }

/-- The call was resolved at chunk `k`. -/
def resolved (chunks : List Bytes) (k : ℕ) : Connection :=
  { accepted chunks with
    head := received chunks k
    unread := chunks.drop k
    calls := [.resolved (Sni.parseSNI (received chunks k))] }

/-- The call was rejected at chunk `k`. -/
def rejected (chunks : List Bytes) (k : ℕ) : Connection :=
  { accepted chunks with
    head := received chunks k
    unread := chunks.drop k
    flowing := true
    destroyed := true
    calls := [.rejected ("ClientHello exceeds " ++ toString maxClientHelloSize ++ " bytes")] }

/-- The next chunk stops a waiting call or leaves it waiting. -/
theorem read_waiting {chunks : List Bytes} {k : ℕ} (hk : k < chunks.length) :
    (waiting chunks k).read =
      if ready (received chunks (k + 1)) then resolved chunks (k + 1)
      else if maxClientHelloSize < (received chunks (k + 1)).length then rejected chunks (k + 1)
      else waiting chunks (k + 1) := by
  have hunread : chunks.drop k = chunks[k] :: chunks.drop (k + 1) := List.drop_eq_getElem_cons hk
  simp only [read, waiting, hunread, accepted, List.foldl_cons, List.foldl_nil, callDataListener,
    onData, ← received_succ hk]
  by_cases hready : ready (received chunks (k + 1)) = true
  · simp [hready, cleanup, settle, resolved, accepted]
  · by_cases hsize : maxClientHelloSize < (received chunks (k + 1)).length
    · simp [hready, hsize, cleanup, settle, rejected, accepted]
    · simp [hready, hsize]

/-- A waiting call with nothing left to read keeps waiting. -/
theorem read_waiting_of_le {chunks : List Bytes} {k : ℕ} (hk : chunks.length ≤ k) :
    (waiting chunks k).read = waiting chunks k := by
  simp [read, waiting, accepted, List.drop_eq_nil_of_le hk]

theorem read_resolved (chunks : List Bytes) (k : ℕ) :
    (resolved chunks k).read = resolved chunks k := rfl

theorem read_rejected (chunks : List Bytes) (k : ℕ) :
    (rejected chunks k).read = rejected chunks k := rfl

/-- A buffer at which a waiting call stops. -/
def Stops (b : Bytes) : Prop := ready b = true ∨ maxClientHelloSize < b.length

/-- **After any number of reads a call waits, or it stopped at the first chunk that stops
it.** -/
theorem reads_cases (chunks : List Bytes) (k : ℕ) :
    (reads chunks k = waiting chunks (min k chunks.length) ∧
        ∀ i ≤ k, ¬ Stops (received chunks i)) ∨
      ∃ j ≤ k, (∀ i < j, ¬ Stops (received chunks i)) ∧
        (reads chunks k = resolved chunks j ∧ ready (received chunks j) = true ∨
          reads chunks k = rejected chunks j ∧ ready (received chunks j) = false ∧
            maxClientHelloSize < (received chunks j).length) := by
  induction k with
  | zero =>
      refine Or.inl ⟨rfl, ?_⟩
      intro i hi
      obtain rfl : i = 0 := Nat.le_zero.mp hi
      rintro (hready | hsize)
      · cases hready
      · exact absurd hsize (by simp)
  | succ k ih =>
      have hreads : reads chunks (k + 1) = (reads chunks k).read := by
        rw [reads, List.replicate_succ', ← List.cons_append, run_concat]
        rfl
      rw [hreads]
      rcases ih with ⟨heq, hgo⟩ | ⟨j, hj, hgo, ⟨heq, hready⟩ | ⟨heq, hnot, hsize⟩⟩
      · have hnext : ¬ Stops (received chunks (k + 1)) →
            ∀ i ≤ k + 1, ¬ Stops (received chunks i) := by
          intro h i hi
          rcases Nat.le_succ_iff.mp hi with hi | rfl
          · exact hgo i hi
          · exact h
        have hbefore : ∀ i < k + 1, ¬ Stops (received chunks i) :=
          fun i hi => hgo i (Nat.le_of_lt_succ hi)
        by_cases hk : k < chunks.length
        · rw [heq, min_eq_left hk.le, read_waiting hk]
          split_ifs with hready hsize
          · exact Or.inr ⟨k + 1, le_rfl, hbefore, Or.inl ⟨rfl, hready⟩⟩
          · exact Or.inr ⟨k + 1, le_rfl, hbefore, Or.inr ⟨rfl, by simpa using hready, hsize⟩⟩
          · refine Or.inl ⟨by rw [min_eq_left hk], hnext ?_⟩
            rintro (h | h)
            · exact hready h
            · exact hsize h
        · have hle : chunks.length ≤ k := Nat.le_of_not_lt hk
          rw [heq, min_eq_right hle, read_waiting_of_le le_rfl,
            min_eq_right (Nat.le_succ_of_le hle)]
          refine Or.inl ⟨rfl, hnext ?_⟩
          rw [received_of_le (Nat.le_succ_of_le hle), ← received_of_le hle]
          exact hgo k le_rfl
      · rw [heq, read_resolved]
        exact Or.inr ⟨j, Nat.le_succ_of_le hj, hgo, Or.inl ⟨rfl, hready⟩⟩
      · rw [heq, read_rejected]
        exact Or.inr ⟨j, Nat.le_succ_of_le hj, hgo, Or.inr ⟨rfl, hnot, hsize⟩⟩

/-! ## The test -/

/-- `isClientHello` looks at bytes that later ones do not change. -/
theorem isClientHello_append {b : Bytes} (h : Sni.isClientHello b = true) (s : Bytes) :
    Sni.isClientHello (b ++ s) = true := by
  have hkeep : ∀ (i : ℕ) (byte : UInt8), b[i]? = some byte → (b ++ s)[i]? = some byte := by
    intro i byte hi
    obtain ⟨hlt, -⟩ := List.getElem?_eq_some_iff.mp hi
    rwa [List.getElem?_append_left hlt]
  simp only [Sni.isClientHello, Bool.and_eq_true, decide_eq_true_eq] at h ⊢
  exact ⟨⟨hkeep 0 _ h.1.1, hkeep 1 _ h.1.2⟩, hkeep 5 _ h.2⟩

/-- A buffer that holds a complete ClientHello keeps holding it. -/
theorem stable_ready : Stable fun b : Bytes => ready b = true := by
  intro b s h
  simp only [ready, Bool.and_eq_true] at h ⊢
  exact ⟨isClientHello_append h.1 s, Sni.isComplete_append h.2 s⟩

/-- What the test of a head and its hostname say of every longer one. -/
theorem ready_mono {b b' : Bytes} (h : ready b = true) (hb : b <+: b') :
    ready b' = true ∧ Sni.parseSNI b' = Sni.parseSNI b := by
  obtain ⟨s, rfl⟩ := hb
  have hcomplete : Sni.isComplete b = true := by
    simp only [ready, Bool.and_eq_true] at h
    exact h.2
  exact ⟨stable_ready b s h, Sni.parseSNI_append hcomplete s⟩

/-- What a prefix of the stream with a complete ClientHello says about the hostname. -/
theorem parseSNI_received {S : Bytes} (cut : Cut S) {j : ℕ}
    (h : ready (received cut.chunks j) = true) :
    Sni.parseSNI (received cut.chunks j) = Sni.parseSNI S := by
  have hprefix : received cut.chunks j <+: S :=
    ⟨(cut.chunks.drop j).flatten, (received_append_drop _ _).trans cut.flatten_eq⟩
  exact (ready_mono h hprefix).2.symm

/-- The chunks that have been received pass the test from length `L` on. -/
theorem ready_received_iff {S : Bytes} (cut : Cut S) {L : ℕ}
    (hL : ShortestPrefix (fun b => ready b = true) S L) (k : ℕ) :
    ready (received cut.chunks k) = true ↔ L ≤ (received cut.chunks k).length := by
  rw [← stable_ready.take_iff hL (cut.length_received_le k), ← cut.received_eq_take k]

/-! ## Segmentation -/

/-- Within the limit, a call stops at the length of the shortest ClientHello and beyond. -/
theorem stops_received_iff {S : Bytes} (cut : Cut S) {L : ℕ}
    (hL : ShortestPrefix (fun b => ready b = true) S L) (hlimit : L ≤ maxClientHelloSize) (k : ℕ) :
    Stops (received cut.chunks k) ↔ L ≤ (received cut.chunks k).length := by
  rw [Stops, ready_received_iff cut hL k]
  exact ⟨fun h => h.elim id fun hsize => hlimit.trans hsize.le, Or.inl⟩

/-- A call that has not met its ClientHello yet is pending. -/
theorem reads_pending {S : Bytes} (cut : Cut S) {L : ℕ}
    (hL : ShortestPrefix (fun b => ready b = true) S L) (hlimit : L ≤ maxClientHelloSize) {k : ℕ}
    (hk : (received cut.chunks k).length < L) : (reads cut.chunks k).calls = [.pending] := by
  rcases reads_cases cut.chunks k with ⟨heq, -⟩ | ⟨j, hj, -, hstop⟩
  · rw [heq]
    rfl
  · have hmono := length_received_mono cut.chunks hj
    have hstops : Stops (received cut.chunks j) := by
      rcases hstop with ⟨-, hready⟩ | ⟨-, -, hsize⟩
      · exact Or.inl hready
      · exact Or.inr hsize
    have hreached := (stops_received_iff cut hL hlimit j).mp hstops
    omega

/-- A call resolves at the chunk that completes its ClientHello. -/
theorem reads_resolved {S : Bytes} (cut : Cut S) {L : ℕ}
    (hL : ShortestPrefix (fun b => ready b = true) S L) (hlimit : L ≤ maxClientHelloSize) {j : ℕ}
    (hj : ∀ i, L ≤ (received cut.chunks i).length ↔ j < i) {k : ℕ} (hk : j < k) :
    reads cut.chunks k = resolved cut.chunks (j + 1) := by
  have hstops : ∀ i, Stops (received cut.chunks i) ↔ j < i :=
    fun i => (stops_received_iff cut hL hlimit i).trans (hj i)
  rcases reads_cases cut.chunks k with ⟨-, hgo⟩ | ⟨i, hi, hgo, hstop⟩
  · exact absurd ((hstops (j + 1)).mpr (Nat.lt_succ_self j)) (hgo (j + 1) hk)
  · have hlt : j < i := by
      rcases hstop with ⟨-, hready⟩ | ⟨-, -, hsize⟩
      · exact (hstops i).mp (Or.inl hready)
      · exact (hstops i).mp (Or.inr hsize)
    have hle : ¬ j + 1 < i := fun hlater =>
      hgo (j + 1) hlater ((hstops (j + 1)).mpr (Nat.lt_succ_self j))
    obtain rfl : i = j + 1 := by omega
    rcases hstop with ⟨heq, -⟩ | ⟨-, hnot, -⟩
    · exact heq
    · rw [(ready_received_iff cut hL (j + 1)).mpr ((hj (j + 1)).mpr hlt)] at hnot
      cases hnot

/-- **`waitSNI` is independent of segmentation and loses no bytes.** For a stream `S` and
every cut of it, with `L` the length of the shortest prefix that holds a complete
ClientHello: if `L` is within the limit, the call settles on no chunk that ends before `L`
and resolves on the first one that does not, with the hostname of `S`; the head is then what
has been consumed, the rest is unread, and no more is read. Whatever `S` is, the call has
settled once more than the limit has been received. -/
theorem waitSNI_segmentation (S : Bytes) (cut : Cut S) :
    (∀ L, ShortestPrefix (fun b => ready b = true) S L → L ≤ maxClientHelloSize →
      (∀ k, (received cut.chunks k).length < L → (reads cut.chunks k).calls = [.pending]) ∧
      ∃ j, (received cut.chunks j).length < L ∧ L ≤ (received cut.chunks (j + 1)).length ∧
        ∀ k, j < k →
          (reads cut.chunks k).calls = [.resolved (Sni.parseSNI S)] ∧
          (reads cut.chunks k).head = received cut.chunks (j + 1) ∧
          (reads cut.chunks k).unread = cut.chunks.drop (j + 1) ∧
          (reads cut.chunks k).flowing = false ∧
          (reads cut.chunks k).head ++ (reads cut.chunks k).unread.flatten = S) ∧
    ∀ k, maxClientHelloSize < (received cut.chunks k).length →
      (reads cut.chunks k).calls ≠ [.pending] := by
  constructor
  · intro L hL hlimit
    have hpos : 0 < L := by
      refine Nat.pos_of_ne_zero fun hzero => ?_
      have hempty := hL.1.2
      rw [hzero] at hempty
      cases hempty
    obtain ⟨j, hj⟩ := cut.exists_reached hpos hL.1.1
    refine ⟨fun k hk => reads_pending cut hL hlimit hk, j, ?_, ?_, ?_⟩
    · exact Nat.lt_of_not_le fun hreached => Nat.lt_irrefl j ((hj j).mp hreached)
    · exact (hj (j + 1)).mpr (Nat.lt_succ_self j)
    · intro k hk
      have hready := (ready_received_iff cut hL (j + 1)).mpr ((hj (j + 1)).mpr (Nat.lt_succ_self j))
      rw [reads_resolved cut hL hlimit hj hk]
      refine ⟨?_, rfl, rfl, rfl, ?_⟩
      · rw [resolved, parseSNI_received cut hready]
      · exact (received_append_drop cut.chunks (j + 1)).trans cut.flatten_eq
  · intro k hsize
    rcases reads_cases cut.chunks k with ⟨-, hgo⟩ | ⟨j, -, -, ⟨heq, -⟩ | ⟨heq, -⟩⟩
    · exact absurd (Or.inr hsize) (hgo k le_rfl)
    · rw [heq, resolved]
      simp
    · rw [heq, rejected]
      simp

/-- A ClientHello of nine bytes and one byte more, in two chunks. -/
private def twoChunks : Cut ([22, 3, 1, 0, 4, 1, 0, 0, 0, 7] : Bytes) :=
  ⟨[[22, 3, 1, 0], [4, 1, 0, 0, 0, 7]], rfl, by decide⟩

theorem waitSNI_segmentation_two_chunks :
    (reads twoChunks.chunks 1).calls = [.pending] ∧
      ∃ j, ∀ k, j < k → (reads twoChunks.chunks k).calls = [.resolved none] := by
  have hshorter : ∀ n < 9, ready (([22, 3, 1, 0, 4, 1, 0, 0, 0, 7] : Bytes).take n) = false := by
    decide +kernel
  have hL : ShortestPrefix (fun b => ready b = true) [22, 3, 1, 0, 4, 1, 0, 0, 0, 7] 9 := by
    refine ⟨⟨by decide, by decide +kernel⟩, fun n hn => Nat.le_of_not_lt fun hlt => ?_⟩
    exact absurd hn.2 (by simp [hshorter n hlt])
  have hnone : Sni.parseSNI [22, 3, 1, 0, 4, 1, 0, 0, 0, 7] = none := by decide +kernel
  obtain ⟨hpending, j, -, -, hresolved⟩ :=
    (waitSNI_segmentation _ twoChunks).1 9 hL (by decide)
  refine ⟨hpending 1 (by decide), j, fun k hk => ?_⟩
  rw [(hresolved k hk).1, hnone]

end Connection

end Proxinator.Reverse
