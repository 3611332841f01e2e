import Proxinator.Tunnel.Faithful

/-!
# Tunnels in a line

A connection through several proxies runs through a tunnel in each of them: what a tunnel gives
to its target socket arrives at the client socket of the next one, in any number of chunks, and
the other way round. The line as a whole is a pipe in each direction, whatever happens in it:
what arrives behind it begins what was written before it (`received_begins`), and a half-close
that goes through arrives behind all data, if no transform is cut off (`received_le`).

## Main definitions

* `Line`, `Line.step` — the tunnels, and what was written at both ends.
* `Line.Admits` — what the sockets between the tunnels do.
-/

namespace Proxinator

open Lib

namespace Tunnel

/-- A tunnel of a line, with its options. -/
structure Hop where
  opts : Options
  tunnel : Tunnel

/-- The tunnel as a pipe for the data of a side. -/
def Hop.pipe (side : Side) (h : Hop) : Pipe UInt8 := (h.tunnel.flow side).pipe

/-- A list along the line in the order in which the data of a side goes through it. -/
def route {β : Type*} (side : Side) (l : List β) : List β :=
  match side with
  | .client => l
  | .target => l.reverse

/-- Tunnels in a line, the first of them next to the client, and what the client and the target
have written. -/
structure Line where
  hops : List Hop
  written : Side → Known UInt8

namespace Line

/-- An event of the client or the target, or of a stream of the `i`-th tunnel. -/
inductive Event
  | write (side : Side) (chunk : Bytes)
  | finish (side : Side)
  | hop (i : ℕ) (e : Tunnel.Event)

/-- A line of tunnels with these options. -/
def new (optss : List Options) : Line :=
  ⟨optss.map fun opts => ⟨opts, Tunnel.new⟩, fun _ => ⟨[], false⟩⟩

/-- The tunnels that the data of a side goes through before the `i`-th one. -/
def before (line : Line) (side : Side) (i : ℕ) : List Hop :=
  match side with
  | .client => line.hops.take i
  | .target => (line.hops.drop (i + 1)).reverse

/-- What was written to the peer of the socket of a side in the `i`-th tunnel. -/
def arriving (line : Line) (side : Side) (i : ℕ) : Known UInt8 :=
  outlet (line.written side) ((line.before side i).map (Hop.pipe side))

/-- What has been written behind the line of what a side sends. -/
def received (line : Line) (side : Side) : Known UInt8 :=
  outlet (line.written side) ((route side line.hops).map (Hop.pipe side))

/-- The reaction to one event. -/
def step (line : Line) : Event → Line
  | .write side chunk =>
    { line with written := Function.update line.written side ((line.written side).append chunk) }
  | .finish side =>
    { line with written := Function.update line.written side (line.written side).finish }
  | .hop i e =>
    { line with hops := line.hops.modify i fun h => { h with tunnel := h.tunnel.step h.opts e } }

/-- What the sockets between the tunnels do: a socket emits what was written to its peer, in
order, nothing after `end`, and `end` once it has emitted all. -/
def Admits (line : Line) : Event → Prop
  | .hop i (.data side chunk _) => ∀ h, line.hops[i]? = some h →
    (h.tunnel.flow side).sourceEnded = false ∧
      (h.pipe side).input.items ++ chunk <+: (line.arriving side i).items
  | .hop i (.end side) => ∀ h, line.hops[i]? = some h →
    line.arriving side i = ⟨(h.pipe side).input.items, true⟩
  | _ => True

/-! ## The line is joined -/

/-- **Into every tunnel goes what came out of the one before.** -/
def Joined (line : Line) : Prop :=
  ∀ side, Series (line.written side) ((route side line.hops).map (Hop.pipe side))

theorem joined_new (optss : List Options) : (new optss).Joined := by
  intro side
  have hpipes : ∀ pipes : List (Pipe UInt8),
      (∀ pipe ∈ pipes, pipe = ⟨⟨[], false⟩, ⟨[], false⟩⟩) → Series ⟨[], false⟩ pipes := by
    intro pipes
    induction pipes with
    | nil => exact fun _ => .nil _
    | cons pipe pipes ih =>
        intro h
        rw [List.forall_mem_cons] at h
        obtain ⟨rfl, h⟩ := h
        exact .cons le_rfl (ih h)
  refine hpipes _ fun pipe hpipe => ?_
  obtain ⟨h, hmem, rfl⟩ := List.mem_map.mp hpipe
  have hmem' : h ∈ (new optss).hops := by
    cases side with
    | client => exact hmem
    | target => exact List.mem_reverse.mp hmem
  obtain ⟨opts, -, rfl⟩ := List.mem_map.mp hmem'
  rfl

/-- The data of a side goes through the tunnels before one, through that one, and through the
others. -/
theorem exists_route {line : Line} {i : ℕ} {h : Hop} (hi : line.hops[i]? = some h) (side : Side) :
    ∃ after, route side line.hops = line.before side i ++ h :: after ∧
      ∀ g : Hop → Hop, route side (line.hops.modify i g) = line.before side i ++ g h :: after := by
  obtain ⟨hlt, rfl⟩ := List.getElem?_eq_some_iff.mp hi
  have hsplit : line.hops = line.hops.take i ++ line.hops[i] :: line.hops.drop (i + 1) := by
    rw [List.getElem_cons_drop, List.take_append_drop]
  have hmodify : ∀ g : Hop → Hop, line.hops.modify i g =
      line.hops.take i ++ g line.hops[i] :: line.hops.drop (i + 1) :=
    fun g => List.modify_eq_take_cons_drop hlt
  cases side with
  | client => exact ⟨line.hops.drop (i + 1), hsplit, hmodify⟩
  | target =>
      refine ⟨(line.hops.take i).reverse, ?_, fun g => ?_⟩
      · conv_lhs => rw [route, hsplit]
        simp [before]
      · rw [route, hmodify]
        simp [before]

/-- What a socket has emitted after an event had been written to its peer. -/
theorem input_step_le {line : Line} (hjoined : line.Joined) {i : ℕ} {e : Tunnel.Event}
    (hadm : line.Admits (.hop i e)) {h : Hop} (hi : line.hops[i]? = some h) (side : Side) :
    ((h.tunnel.emits e).flow side).pipe.input ≤ line.arriving side i := by
  obtain ⟨after, hroute, -⟩ := exists_route hi side
  have hbefore : (h.pipe side).input ≤ line.arriving side i := by
    have hseries := hjoined side
    rw [hroute, List.map_append, List.map_cons, Series.append_iff, Series.cons_iff] at hseries
    exact hseries.2.1
  have hother : ∀ (side' : Side) (f : Flow), side ≠ side' →
      (((h.tunnel.setFlow side' f).flow side).pipe.input ≤ line.arriving side i) := by
    intro side' f hne
    rw [setFlow_flow, Function.update_of_ne hne]
    exact hbefore
  cases e with
  | data side' chunk full =>
      by_cases hside : side = side'
      · subst hside
        obtain ⟨hopen, hchunk⟩ := hadm h hi
        rw [emits, setFlow_flow, Function.update_self]
        have hitems : ((h.tunnel.flow side).sent ++ [chunk]).flatten =
            (h.pipe side).input.items ++ chunk := by simp [Hop.pipe, Flow.pipe]
        simp only [Flow.pipe, hopen, hitems]
        exact Known.open_le.mpr hchunk
      · exact hother side' _ hside
  | «end» side' =>
      by_cases hside : side = side'
      · subst hside
        rw [hadm h hi, emits, setFlow_flow, Function.update_self]
        exact le_rfl
      · exact hother side' _ hside
  | process | flush | emit | transformDrain | transformEnd | transformError | drain | finish |
    close | error | timeout => exact hbefore

/-- **Every step keeps the line joined.** -/
theorem joined_step {line : Line} (hjoined : line.Joined) {e : Event} (hadm : line.Admits e) :
    (line.step e).Joined := by
  have hends : ∀ (side : Side) (known : Known UInt8), line.written side ≤ known →
      ({ line with written := Function.update line.written side known } : Line).Joined := by
    intro side known hle side'
    dsimp only
    by_cases hside : side' = side
    · subst hside
      rw [Function.update_self]
      exact (hjoined side').mono hle
    · rw [Function.update_of_ne hside]
      exact hjoined side'
  cases e with
  | write side chunk => exact hends side _ (Known.le_append _ chunk)
  | finish side => exact hends side _ (Known.le_finish _)
  | hop i e =>
      cases hi : line.hops[i]? with
      | none =>
          have hsame : line.step (.hop i e) = line := by
            rw [step, List.modify_eq_self (List.getElem?_eq_none_iff.mp hi)]
          rw [hsame]
          exact hjoined
      | some h =>
          intro side
          have hinput := input_step_le hjoined hadm hi side
          obtain ⟨hsame, houtput⟩ := gives_step h.opts h.tunnel e side
          obtain ⟨after, hroute, hmodified⟩ := exists_route hi side
          have hseries := hjoined side
          rw [hroute, List.map_append, List.map_cons] at hseries
          rw [step, hmodified, List.map_append, List.map_cons]
          refine hseries.work ?_ (le_trans (le_of_eq ?_) houtput)
          · rw [← hsame] at hinput
            exact hinput
          · rw [Hop.pipe, output_emits]

/-! ## Any run -/

/-- Every tunnel of the line is faithful. -/
def Honest (line : Line) : Prop :=
  ∀ h ∈ line.hops, h.opts.Transparent ∧ h.tunnel.Faithful h.opts

theorem honest_step {line : Line} (hhonest : line.Honest) {e : Event} (hadm : line.Admits e) :
    (line.step e).Honest := by
  cases e with
  | write side chunk => exact hhonest
  | finish side => exact hhonest
  | hop i e =>
      intro h hmem
      obtain ⟨j, hj⟩ := List.mem_iff_getElem?.mp hmem
      rw [step, List.getElem?_modify] at hj
      obtain ⟨h', hh', rfl⟩ := Option.map_eq_some_iff.mp hj
      obtain ⟨htransparent, hfaithful⟩ := hhonest h' (List.mem_of_getElem? hh')
      by_cases hi : i = j
      · subst hi
        rw [if_pos rfl]
        refine ⟨htransparent, hfaithful.step htransparent ?_⟩
        rintro side chunk full rfl
        exact (hadm h' hh').1
      · rw [if_neg hi]
        exact ⟨htransparent, hfaithful⟩

/-- Nothing of what a side has written is under way: every tunnel has taken what arrives at it,
no transform holds anything back, and no receiver was destroyed. -/
def AtRest (line : Line) (side : Side) : Prop :=
  ∀ i h, line.hops[i]? = some h → h.tunnel.destroyed side.other = false ∧
    (h.tunnel.flow side).remains h.opts side = [] ∧
      (h.pipe side).input.items = (line.arriving side i).items

/-- The tunnels before one on the way of a side are those before its place in the line. -/
theorem exists_place {line : Line} {side : Side} {before after : List Hop} {h : Hop}
    (hroute : route side line.hops = before ++ h :: after) :
    ∃ i, line.hops[i]? = some h ∧ line.before side i = before := by
  cases side with
  | client =>
      have hhops : line.hops = before ++ h :: after := hroute
      exact ⟨before.length, by simp [hhops], by simp [Line.before, hhops]⟩
  | target =>
      have hhops : line.hops = after.reverse ++ h :: before.reverse := by
        have hreverse := congrArg List.reverse hroute
        simpa [route] using hreverse
      exact ⟨after.length, by simp [hhops], by simp [Line.before, hhops, List.drop_append]⟩

/-- Of what a side has written that rests in no tunnel all has been received. -/
theorem received_of_rest {line : Line} (hhonest : line.Honest) {side : Side}
    (hrest : line.AtRest side) : (line.received side).items = (line.written side).items := by
  refine items_outlet fun before pipe after hpipes => ?_
  obtain ⟨before', rest, hroute, rfl, hcons⟩ := List.map_eq_append_iff.mp hpipes
  obtain ⟨h, after', rfl, rfl, -⟩ := List.map_eq_cons_iff.mp hcons
  obtain ⟨i, hi, rfl⟩ := exists_place hroute
  obtain ⟨halive, hremains, harrived⟩ := hrest i h hi
  obtain ⟨htransparent, hfaithful⟩ := hhonest h (List.mem_of_getElem? hi)
  have hgiven := ((hfaithful side).accounted halive).given_eq_iff.mpr hremains
  have houtputs : (h.opts.outputs side (h.tunnel.flow side).sent).flatten =
      (h.tunnel.flow side).sent.flatten := by
    rw [Options.outputs]
    cases hT : h.opts.transform side with
    | none => rfl
    | some T => exact congrArg Known.items ((htransparent side T hT).outputs _).symm
  have hpipe : (h.pipe side).output.items = (h.pipe side).input.items := by
    simp only [Hop.pipe, Flow.pipe]
    rw [hgiven, houtputs]
  rw [hpipe, harrived, arriving]

/-- **What is received behind a line begins what was written before it**, in both directions and
after every run: whatever errors, timeouts and half-closes there are in its tunnels, nothing is
made up, repeated, left out or put in another order. And if nothing is under way, all that was
written has been received. -/
theorem received_begins {optss : List Options} (htransparent : ∀ opts ∈ optss, opts.Transparent)
    (events : List Event) (h : Along step Admits (new optss) events) (side : Side) :
    ((run step (new optss) events).received side).items <+:
        ((run step (new optss) events).written side).items ∧
      ((run step (new optss) events).AtRest side →
        ((run step (new optss) events).received side).items =
          ((run step (new optss) events).written side).items) := by
  have hnew : (new optss).Honest := by
    intro hop hmem
    obtain ⟨opts, hopts, rfl⟩ := List.mem_map.mp hmem
    exact ⟨htransparent opts hopts, faithful_new opts⟩
  obtain ⟨hjoined, hhonest⟩ := h.invariant (P := fun line => line.Joined ∧ line.Honest)
    (fun line e hadm hline => ⟨joined_step hline.1 hadm, honest_step hline.2 hadm⟩)
    ⟨joined_new optss, hnew⟩
  refine ⟨(hjoined side).outlet_begins fun pipe hpipe => ?_, received_of_rest hhonest⟩
  obtain ⟨hop, hmem, rfl⟩ := List.mem_map.mp hpipe
  have hmem' : hop ∈ (run step (new optss) events).hops := by
    cases side with
    | client => exact hmem
    | target => exact List.mem_reverse.mp hmem
  exact ((hhonest hop hmem').2 side).begins

/-- Two tunnels, of which the first has a transform that passes on what the client sends. -/
private def relays : List Options :=
  [⟨none, some Transform.identity, 0, true, true⟩, ⟨none, none, 0, true, true⟩]

private theorem identity_computes :
    (Transform.identity : Transform Bytes).Computes OrderHom.id :=
  Transform.computes_id (fun _ chunk => List.append_nil chunk) (fun _ => rfl)

/-- The target sends a byte, and the socket to it fails while the byte is under way. -/
theorem received_begins_error :
    let events : List Event :=
      [.write .target [7], .hop 1 (.data .target [7] false),
        .hop 1 (.error .target (some "ECONNRESET"))]
    ((run step (new relays) events).received .target).items <+: [7] := by
  refine (received_begins ?_ _ ?_ .target).1
  · intro opts hopts side T hT
    cases hopts with
    | head =>
        cases side with
        | client => cases hT; exact identity_computes
        | target => cases hT
    | tail _ hopts =>
        rw [List.mem_singleton.mp hopts] at hT
        cases side with
        | client => cases hT
        | target => cases hT
  · simp only [along_cons, along_nil, and_true]
    refine ⟨trivial, fun h hh => ?_, trivial⟩
    cases hh
    exact ⟨rfl, ⟨[], rfl⟩⟩

/-! ## Orderly runs -/

/-- The transform of a direction computes a function. -/
def Computes (opts : Options) (side : Side) (f : Known UInt8 →o Known UInt8) : Prop :=
  match opts.transform side with
  | some T => T.Computes f
  | none => f = OrderHom.id

/-- No socket fails, and no source ends while its transform holds something back. -/
def Orderly (line : Line) : Event → Prop
  | .hop i e => ∀ h, line.hops[i]? = some h →
    h.tunnel.Admits e ∧ h.tunnel.EndsDrained h.opts e
  | _ => True

/-- Every tunnel of the line is sound and intact. -/
def Whole (line : Line) : Prop :=
  ∀ h ∈ line.hops, (∀ side, (h.tunnel.flow side).Sound h.opts side) ∧ h.tunnel.Intact h.opts

theorem whole_step {line : Line} (hwhole : line.Whole) {e : Event} (horderly : line.Orderly e) :
    (line.step e).Whole := by
  cases e with
  | write side chunk => exact hwhole
  | finish side => exact hwhole
  | hop i e =>
      intro h hmem
      obtain ⟨j, hj⟩ := List.mem_iff_getElem?.mp hmem
      rw [step, List.getElem?_modify] at hj
      obtain ⟨h', hh', rfl⟩ := Option.map_eq_some_iff.mp hj
      obtain ⟨hsound, hintact⟩ := hwhole h' (List.mem_of_getElem? hh')
      by_cases hi : i = j
      · subst hi
        rw [if_pos rfl]
        obtain ⟨hadm, hdrained⟩ := horderly h' hh'
        exact ⟨sound_step hadm hsound hintact, (intact_step_iff hadm hsound hintact).mpr hdrained⟩
      · rw [if_neg hi]
        exact ⟨hsound, hintact⟩

/-- No step changes the options. -/
theorem opts_step (line : Line) (e : Event) :
    (line.step e).hops.map Hop.opts = line.hops.map Hop.opts := by
  cases e with
  | write side chunk => rfl
  | finish side => rfl
  | hop i e =>
      ext1 j
      rw [step, List.getElem?_map, List.getElem?_modify, List.getElem?_map, Option.map_eq_map,
        Option.map_map]
      by_cases hi : i = j
      · simp only [if_pos hi]
        rfl
      · simp only [if_neg hi]
        rfl

/-- What an intact tunnel has given lies below what its transform computes of what was sent. -/
theorem output_le {h : Hop} {side : Side} {f : Known UInt8 →o Known UInt8}
    (hf : Computes h.opts side f) (hsound : (h.tunnel.flow side).Sound h.opts side)
    (hintact : h.tunnel.Intact h.opts) : (h.pipe side).output ≤ f (h.pipe side).input := by
  have haccounted := hsound.accounted
  rw [Computes] at hf
  simp only [Hop.pipe, Flow.pipe]
  cases hT : h.opts.transform side with
  | none =>
      simp only [hT] at hf
      simp only [Flow.Accounted, hT] at haccounted
      rw [hf, haccounted, hsound.ended_eq]
      exact le_rfl
  | some T =>
      simp only [hT] at hf
      by_cases hended : (h.tunnel.flow side).ended = true
      · have hgiven := (hintact side).2 hended
        simp only [Options.outputs, hT] at hgiven
        rw [← hsound.ended_eq, hended, hgiven, hf.outputs]
      · simp only [Flow.Accounted, hT] at haccounted
        have hle := haccounted.le hf hsound.ending_spec
        have hopen : (h.tunnel.flow side).ended = false := by simpa using hended
        rw [hopen]
        exact hle

/-- **A line of transforms is a pipe for the composition of what they compute**, over every run
without failures in which no transform is cut off: what is received lies below the composition
of what was written. So also the end is received only once it was written, and behind all that
the transforms make of what was written before it. -/
theorem received_le {optss : List Options} {fs : List (Side → (Known UInt8 →o Known UInt8))}
    (hfs : List.Forall₂ (fun f opts => ∀ side, Computes opts side (f side)) fs optss)
    (events : List Event)
    (h : Along step (fun line e => line.Admits e ∧ line.Orderly e) (new optss) events)
    (side : Side) :
    (run step (new optss) events).received side ≤
      ((route side fs).map fun f => f side).foldl (fun known f => f known)
        ((run step (new optss) events).written side) := by
  have hnew : (new optss).Whole := by
    intro hop hmem
    obtain ⟨opts, -, rfl⟩ := List.mem_map.mp hmem
    exact ⟨fun side => Flow.sound_new opts side, intact_new opts⟩
  obtain ⟨hjoined, hwhole, hopts⟩ := h.invariant
    (P := fun line => line.Joined ∧ line.Whole ∧ line.hops.map Hop.opts = optss)
    (fun line e hstep hline => ⟨joined_step hline.1 hstep.1, whole_step hline.2.1 hstep.2,
      (opts_step line e).trans hline.2.2⟩)
    ⟨joined_new optss, hnew, by simp [new, Function.comp_def]⟩
  generalize run step (new optss) events = line at hjoined hwhole hopts ⊢
  rw [← hopts, List.forall₂_map_right_iff] at hfs
  refine (hjoined side).outlet_le ?_
  rw [List.forall₂_map_left_iff, List.forall₂_map_right_iff]
  have hhops : List.Forall₂ (fun f (h : Hop) => (h.pipe side).output ≤ f side (h.pipe side).input)
      fs line.hops := by
    obtain ⟨hlength, hzip⟩ := List.forall₂_iff_zip.mp hfs
    refine List.forall₂_iff_zip.mpr ⟨hlength, fun hmem => ?_⟩
    obtain ⟨hsound, hintact⟩ := hwhole _ (List.of_mem_zip hmem).2
    exact output_le (hzip hmem side) (hsound side) hintact
  cases side with
  | client => exact hhops
  | target => exact List.forall₂_reverse_iff.mpr hhops

/-- The client sends two bytes and its end, in other chunks than the second tunnel takes them. -/
theorem received_le_end :
    let events : List Event :=
      [.write .client [1, 2], .finish .client, .hop 0 (.data .client [1] false),
        .hop 0 (.process .client), .hop 0 (.emit .client false),
        .hop 0 (.data .client [2] false), .hop 0 (.process .client),
        .hop 0 (.emit .client false), .hop 1 (.data .client [1, 2] true),
        .hop 0 (.end .client), .hop 1 (.end .client)]
    (run step (new relays) events).received .client ≤ ⟨[1, 2], true⟩ ∧
      (run step (new relays) events).received .client = ⟨[1, 2], true⟩ := by
  have hfs : List.Forall₂ (fun f opts => ∀ side, Computes opts side (f side))
      [fun _ => OrderHom.id, fun _ => OrderHom.id] relays := by
    refine .cons (fun side => ?_) (.cons (fun side => ?_) .nil)
    · cases side with
      | client => exact identity_computes
      | target => rfl
    · cases side with
      | client => rfl
      | target => rfl
  refine ⟨received_le hfs _ ?_ .client, rfl⟩
  have hother : ∀ {t : Tunnel} {opts : Options} {e : Tunnel.Event}, (∀ side, e ≠ .end side) →
      t.EndsDrained opts e := fun he side heq => absurd heq (he side)
  have hdata : ∀ {line : Line} {i : ℕ} {h : Hop} {side : Side} {chunk : Bytes} {full : Bool}
      (_ : line.hops[i]? = some h)
      (_ : (h.tunnel.flow side).sourceEnded = false ∧ (h.tunnel.flow side).sourcePaused = false ∧
        h.tunnel.destroyed side = false)
      (_ : (h.pipe side).input.items ++ chunk <+: (line.arriving side i).items),
      line.Admits (.hop i (.data side chunk full)) ∧
        line.Orderly (.hop i (.data side chunk full)) := by
    intro line i h side chunk full hi hopen hchunk
    refine ⟨fun h' hh' => ?_, fun h' hh' => ?_⟩
    · obtain rfl := Option.some.inj (hi.symm.trans hh')
      exact ⟨hopen.1, hchunk⟩
    · obtain rfl := Option.some.inj (hi.symm.trans hh')
      exact ⟨hopen, hother (by simp)⟩
  have hwork : ∀ {line : Line} {i : ℕ} {e : Tunnel.Event}, (e = .process .client ∨
      e = .emit .client false) → line.Admits (.hop i e) ∧ line.Orderly (.hop i e) := by
    rintro line i e (rfl | rfl)
    · exact ⟨trivial, fun _ _ => ⟨trivial, hother (by simp)⟩⟩
    · exact ⟨trivial, fun _ _ => ⟨trivial, hother (by simp)⟩⟩
  simp only [along_cons, along_nil, and_true]
  refine ⟨⟨trivial, trivial⟩, ⟨trivial, trivial⟩, hdata rfl ⟨rfl, rfl, rfl⟩ ⟨[2], rfl⟩,
    hwork (.inl rfl), hwork (.inr rfl), hdata rfl ⟨rfl, rfl, rfl⟩ ⟨[], rfl⟩, hwork (.inl rfl),
    hwork (.inr rfl), hdata rfl ⟨rfl, rfl, rfl⟩ ⟨[], rfl⟩, ⟨fun h hh => ?_, fun h hh => ?_⟩,
    ⟨fun h hh => ?_, fun h hh => ?_⟩⟩
  · cases hh
    rfl
  · cases hh
    refine ⟨trivial, fun side hside => ?_⟩
    cases hside
    rfl
  · cases hh
    rfl
  · cases hh
    refine ⟨trivial, fun side hside => ?_⟩
    cases hside
    rfl

end Line

end Tunnel

end Proxinator
