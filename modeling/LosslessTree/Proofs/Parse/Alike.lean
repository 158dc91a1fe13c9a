import LosslessTree.Proofs.Grammar.Vocabulary
import LosslessTree.Proofs.Parse.Outlines

/-!
Two streams that the sets of a grammar cannot tell apart. A parse asks of tokens only whether a set
admits them, whether they end the text, and how many there are, so that it goes through the same
states on both.
-/

namespace LosslessTree

/-- Tokens of one kind that are the same words, as far as some words go. -/
structure Token.Alike (words : List String) (left right : Token) : Prop where
  kind : left.kind = right.kind
  text : left.kind = .varId → ∀ word ∈ words, left.text = word ↔ right.text = word

namespace Lookahead.Within

variable {words : List String} {left right : Lookahead}

theorem admits_eq (hset : left.Within words) {token other : Token}
    (halike : token.Alike words other) : left.admits token = left.admits other := by
  by_cases hkind : token.kind = .varId
  · have hother : other.kind = .varId := halike.kind ▸ hkind
    have hwords : left.words.contains token.text = left.words.contains other.text := by
      have hsame (word : String) (hword : word ∈ left.words) :=
        halike.text hkind word (hset word hword)
      rw [Bool.eq_iff_iff, List.contains_iff_mem, List.contains_iff_mem]
      constructor
      · intro hmem
        rwa [(hsame _ hmem).mp rfl]
      · intro hmem
        rwa [(hsame _ hmem).mpr rfl]
    simp only [admits, hkind, hother, hwords]
  · have hother : (other.kind == .varId) = false := by
      rw [← halike.kind]
      simpa using hkind
    simp only [admits, halike.kind, hother, Bool.false_and]

end Lookahead.Within

structure Stream.Alike (words : List String) (left right : Stream) : Prop where
  size : left.size = right.size
  token (position : Nat) : (left.tokenAt position).Alike words (right.tokenAt position)

theorem Stream.Alike.final {words : List String} {left right : Stream}
    (halike : left.Alike words right) : left.final.Alike words right.final := by
  have hlast := halike.token left.size
  rwa [tokenAt_size, halike.size, tokenAt_size] at hlast

namespace Parse

open Grammar

def Session.over (session : Session) (stream : Stream) : Session := { session with stream }

variable {session : Session} {words : List String} {other : Stream}
  (halike : session.stream.Alike words other)

include halike

theorem State.look_over (state : State) :
    state.look (session.over other) = state.look session := by
  rw [look, look, halike.size]
  rfl

theorem State.current_over (state : State) :
    (state.current session).Alike words (state.current (session.over other)) := by
  unfold current
  split
  · exact halike.token state.position
  · exact halike.final

theorem State.admits_over {set : Lookahead} (hset : set.Within words) (state : State) :
    set.admits (state.current (session.over other)) = set.admits (state.current session) :=
  (hset.admits_eq (State.current_over halike state)).symm

theorem State.kind_over (state : State) :
    (state.current (session.over other)).kind = (state.current session).kind :=
  (State.current_over halike state).kind.symm

theorem runOutside_over {stop : Lookahead} (hstop : stop.Within words) (limit position : Nat) :
    State.runOutside (session.over other) stop limit position =
      State.runOutside session stop limit position := by
  induction limit generalizing position with
  | zero => rfl
  | succ limit ih =>
      have htoken := hstop.admits_eq (halike.token position)
      simp only [State.runOutside, ih, htoken]
      rfl

theorem State.skip_over (mode : Mode) {stop : Lookahead} (hstop : stop.Within words)
    (complaint : Complaint) (state : State) :
    state.skip (session.over other) mode stop complaint =
      state.skip session mode stop complaint := by
  cases mode with
  | trial => rfl
  | actual => simp only [skip, runOutside_over halike hstop]

theorem windowEnd_over (state : State) :
    windowEnd (session.over other) state = windowEnd session state := by
  simp only [windowEnd, halike.size]
  rfl

structure Place.Within (words : List String) (place : Place) : Prop where
  first : place.first.Within words
  follow : place.follow.Within words
  part : ∀ part ∈ place.parts, part.first.Within words ∧ part.follow.Within words

variable {enter enterOther : Enter}
  (henter : ∀ mode kind {recovery : Lookahead}, recovery.Within words → ∀ state,
    enterOther mode kind recovery state = enter mode kind recovery state)

omit halike in
include henter in
theorem element_over (mode : Mode) (part : Part) {recovery : Lookahead}
    (hrecovery : recovery.Within words) (state : State) :
    element enterOther mode part recovery state = element enter mode part recovery state := by
  unfold element
  split
  · rfl
  · rfl
  · exact henter mode _ hrecovery state

include henter

theorem speculate_over (mode : Mode) (candidates : List Part) {recovery : Lookahead}
    (hrecovery : recovery.Within words) (state : State) :
    speculate enterOther (session.over other) mode candidates recovery state =
      speculate enter session mode candidates recovery state := by
  have htrial : attempt enterOther (session.over other) recovery state =
      attempt enter session recovery state := by
    funext part
    simp only [attempt, windowEnd_over halike, element_over henter .trial part hrecovery]
  simp only [speculate, htrial, isReusable, resume, windowEnd_over halike,
    element_over henter mode _ hrecovery]
  rfl

section

variable {parts : List Part}
  (hparts : ∀ part ∈ parts, part.first.Within words ∧ part.follow.Within words)
  {recovery : Lookahead} (hrecovery : recovery.Within words)

include hparts hrecovery

theorem choose_over (mode : Mode) (state : State) :
    choose enterOther (session.over other) mode parts recovery state =
      choose enter session mode parts recovery state := by
  have hfilter : parts.filter (·.first.admits
        ((state.look session).current (session.over other))) =
      parts.filter (·.first.admits ((state.look session).current session)) :=
    List.filter_congr fun part hpart => State.admits_over halike (hparts part hpart).1 _
  simp only [choose, State.look_over halike, hfilter, element_over henter mode _ hrecovery,
    speculate_over halike henter mode _ hrecovery]

theorem expectAll_over (mode : Mode) (state : State) :
    expectAll enterOther (session.over other) mode parts recovery state =
      expectAll enter session mode parts recovery state := by
  induction parts generalizing state with
  | nil => rw [expectAll, expectAll, List.foldl_nil, List.foldl_nil]
  | cons part rest ih =>
      obtain ⟨⟨hfirst, hpart⟩, hrest⟩ := List.forall_mem_cons.mp hparts
      have hfollow := hpart.union hrecovery
      have hexpect : expect enterOther (session.over other) mode part
            (part.follow.union recovery) state =
          expect enter session mode part (part.follow.union recovery) state := by
        have hstop := hfirst.union hfollow
        simp only [expect, State.look_over halike, State.admits_over halike hfirst,
          State.admits_over halike hstop, State.kind_over halike, State.skip_over halike mode hstop,
          element_over henter mode part hfollow]
      have htail := ih hrest (expect enter session mode part (part.follow.union recovery) state)
      rw [expectAll, List.foldl_cons, hexpect]
      exact htail

end

section

variable {place : Place} (hplace : Place.Within words place) {recovery : Lookahead}
  (hrecovery : recovery.Within words)

include hplace hrecovery

theorem chooseOrReport_over (mode : Mode) (state : State) :
    chooseOrReport enterOther (session.over other) mode place recovery state =
      chooseOrReport enter session mode place recovery state := by
  rw [chooseOrReport, choose_over halike henter hplace.part hrecovery]
  rfl

theorem once_over (mode : Mode) (state : State) :
    once enterOther (session.over other) mode place recovery state =
      once enter session mode place recovery state := by
  simp only [once, chooseOrReport_over halike henter hplace hrecovery,
    expectAll_over halike henter hplace.part hrecovery]

theorem required_over (mode : Mode) (state : State) :
    required enterOther (session.over other) mode place recovery state =
      required enter session mode place recovery state := by
  have hstop := hplace.first.union hrecovery
  simp only [required, chooseOrReport_over halike henter hplace hrecovery,
    expectAll_over halike henter hplace.part hrecovery, State.look_over halike,
    State.admits_over halike hstop, State.kind_over halike, State.skip_over halike mode hstop]

theorem optional_over (mode : Mode) (state : State) :
    optional enterOther (session.over other) mode place recovery state =
      optional enter session mode place recovery state := by
  simp only [optional, once_over halike henter hplace hrecovery, State.look_over halike,
    State.admits_over halike hplace.first, State.admits_over halike hrecovery,
    State.kind_over halike, State.skip_over halike mode (hplace.first.union hrecovery)]

theorem matchAll_over (mode : Mode) {follow : Lookahead} (hfollow : follow.Within words)
    (rounds : Nat) (expecting found : Bool) (state : State) :
    matchAll enterOther (session.over other) mode place follow recovery rounds expecting found
        state =
      matchAll enter session mode place follow recovery rounds expecting found state := by
  induction rounds generalizing expecting found state with
  | zero => rfl
  | succ rounds ih =>
      simp only [matchAll, ih, once_over halike henter hplace hrecovery, State.look_over halike,
        State.admits_over halike hplace.first, State.admits_over halike hfollow,
        State.kind_over halike, State.skip_over halike mode hrecovery]

omit hrecovery in
theorem repeated_over (mode : Mode) {follow : Lookahead} (hfollow : follow.Within words)
    (state : State) :
    repeated enterOther (session.over other) mode place follow state =
      repeated enter session mode place follow state := by
  have hrecovery : (recoveryOf place follow).Within words := by
    unfold recoveryOf
    dsimp only
    split
    · exact (hfollow.union hplace.first).union (.ofKind _)
    · exact hfollow.union hplace.first
  have hsize : (session.over other).stream.size = session.stream.size := halike.size.symm
  simp only [repeated, hsize, matchAll_over halike henter hplace hrecovery mode hfollow]

theorem slot_over (mode : Mode) (state : State) :
    slot enterOther (session.over other) mode place recovery state =
      slot enter session mode place recovery state := by
  have hfollow := hplace.follow.union hrecovery
  simp only [slot, required_over halike henter hplace hfollow,
    optional_over halike henter hplace hfollow, repeated_over halike henter hplace mode hfollow]

end

theorem slots_over (mode : Mode) {places : List Place}
    (hplaces : ∀ place ∈ places, Place.Within words place) {recovery : Lookahead}
    (hrecovery : recovery.Within words) (state : State) :
    places.foldl (fun state place =>
        slot enterOther (session.over other) mode place recovery state) state =
      places.foldl (fun state place => slot enter session mode place recovery state) state := by
  induction places generalizing state with
  | nil => rw [List.foldl_nil, List.foldl_nil]
  | cons place rest ih =>
      obtain ⟨hplace, hrest⟩ := List.forall_mem_cons.mp hplaces
      rw [List.foldl_cons, List.foldl_cons, slot_over halike henter hplace hrecovery, ih hrest]

variable (hgrammar : ∀ production ∈ session.grammar.productions,
  ∀ place ∈ production.places, Place.Within words place)

include hgrammar

theorem body_over (mode : Mode) (kind : NodeKind) {recovery : Lookahead}
    (hrecovery : recovery.Within words) (state : State) :
    body enterOther (session.over other) mode kind recovery state =
      body enter session mode kind recovery state := by
  have hsame : (session.over other).grammar = session.grammar := rfl
  unfold body
  rw [hsame]
  cases hproduction : session.grammar.production? kind with
  | none => rfl
  | some production =>
      exact slots_over halike henter mode
        (hgrammar production (List.mem_of_find?_eq_some hproduction)) hrecovery state

omit henter hgrammar in
theorem cut_over (mode : Mode) (state : State) :
    cut (session.over other) mode state = cut session mode state := by
  simp only [cut, State.atEnd, State.look_over halike, State.kind_over halike,
    State.skip_over halike mode (.ofKinds .full)]
  rfl

omit henter in
theorem node_over (levels : Nat) (mode : Mode) (kind : NodeKind) {recovery : Lookahead}
    (hrecovery : recovery.Within words) (state : State) :
    node (session.over other) levels mode kind recovery state =
      node session levels mode kind recovery state := by
  induction levels generalizing mode kind recovery state with
  | zero => simp only [node, State.nest, cut_over halike]
  | succ levels ih =>
      have hbody := body_over halike
        (fun mode kind _ hrecovery state => ih mode kind hrecovery state) hgrammar mode kind
        hrecovery
      simp only [node, State.nest, hbody]

omit henter in
/-- Over streams that are alike a whole parse goes the same way. -/
theorem run_over (start : NodeKind) : run (session.over other) start = run session start := by
  have hfinal : (Lookahead.ofKind .eof).Within words := .ofKind .eof
  have hinitial : State.initial (session.over other) = State.initial session := by
    rw [State.initial, State.initial, halike.size]
    rfl
  have hbody := body_over halike (fun mode kind _ hrecovery state =>
    node_over halike hgrammar depthLimit mode kind hrecovery state) hgrammar .actual start hfinal
  simp only [run, hinitial, hbody, State.atEnd, State.look_over halike, State.kind_over halike,
    State.skip_over halike .actual hfinal]
  rfl

end Parse

end LosslessTree
