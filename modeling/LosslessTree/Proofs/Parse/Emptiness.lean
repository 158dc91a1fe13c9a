import Mathlib.Data.List.TakeWhile
import LosslessTree.Proofs.Grammar.Exactness
import LosslessTree.Proofs.Parse.Acceptance

/-!
Parsing where there is nothing to parse. A kind that may be empty, as the analysis has it, comes out
of this without a report, unless a slot is on the way that wants a match at least: the analysis lets
a match be empty, while matches are only looked for in front of a token.
-/

namespace LosslessTree

namespace Grammar

open FactTable

variable {rules : Rules}

/-- The symbols that a slot is matched with where there is nothing. It is left out if it may be, and
of a choice the first symbol is taken that may be empty. -/
def Slot.enters (table : FactTable) (slot : Slot) : List Symbol :=
  match slot.multiplicity, slot.pattern with
  | .exactlyOne, .sequence symbols => symbols
  | .exactlyOne, .choice symbols =>
    (symbols.find? fun symbol => (table.ofSymbol symbol).nullable).toList
  | _, _ => []

/-- The slots that a node comes to where there is nothing, down to so many levels. -/
inductive Rules.Reaches (rules : Rules) : (levels : Nat) → NodeKind → Slot → Prop
  | own {levels : Nat} {kind : NodeKind} {rule : Rule} {slot : Slot} (hrule : (kind, rule) ∈ rules)
      (hslot : slot ∈ rule) : Rules.Reaches rules (levels + 1) kind slot
  | inner {levels : Nat} {kind inner : NodeKind} {rule : Rule} {slot other : Slot}
      (hrule : (kind, rule) ∈ rules) (hslot : slot ∈ rule)
      (hinner : .node inner ∈ slot.enters (Rules.analyse rules))
      (hreaches : Rules.Reaches rules levels inner other) :
      Rules.Reaches rules (levels + 1) kind other

theorem Rules.NullableSlot.nullable_of_enters {slot : Slot} {symbol : Symbol}
    (hnullable : Rules.NullableSlot rules slot)
    (henters : symbol ∈ slot.enters (Rules.analyse rules)) : Rules.Nullable rules symbol := by
  unfold Slot.enters at henters
  split at henters
  · next hone hpattern =>
      cases hnullable with
      | zero hzero =>
          rw [hone] at hzero
          cases hzero
      | sequence hsequence hsymbols =>
          obtain rfl := Pattern.sequence.inj (hpattern.symm.trans hsequence)
          exact hsymbols symbol henters
      | choice hchoice => cases hpattern.symm.trans hchoice
  · have hfound := Option.mem_toList.mp henters
    apply nullable_analyse_iff.mp
    simpa using List.find?_some hfound
  · cases henters

theorem Rules.Reaches.exists_entry {levels : Nat} {kind : NodeKind} {slot : Slot}
    (hreaches : Rules.Reaches rules levels kind slot) : ∃ entry ∈ rules, slot ∈ entry.2 := by
  induction hreaches with
  | own hrule hslot => exact ⟨_, hrule, hslot⟩
  | inner _ _ _ _ ih => exact ih

theorem Rules.Reaches.nullableSlot {grammar : Grammar} (hbuild : build rules = .ok grammar)
    {levels : Nat} {kind : NodeKind} {slot : Slot} (hreaches : Rules.Reaches rules levels kind slot)
    (hnullable : Rules.Nullable rules (.node kind)) : Rules.NullableSlot rules slot := by
  induction hreaches with
  | own hrule hslot =>
      obtain ⟨hother, hslots⟩ := hnullable
      rw [rule_unique hbuild hrule hother] at hslot
      exact hslots _ hslot
  | inner hrule hslot hinner _ ih =>
      obtain ⟨hother, hslots⟩ := hnullable
      rw [rule_unique hbuild hrule hother] at hslot
      apply ih
      exact (hslots _ hslot).nullable_of_enters hinner

theorem nullable_iff {grammar : Grammar} (hbuild : build rules = .ok grammar) {kind : NodeKind} :
    grammar.Nullable kind ↔ Rules.Nullable rules (.node kind) := by
  constructor
  · rintro ⟨production, hproduction, hnullable⟩
    obtain ⟨rule, -, rfl⟩ := production_of_rule hbuild hproduction
    exact nullable_analyse_iff.mp hnullable
  · intro hnullable
    cases hnullable with
    | node hrule hslots =>
        exact ⟨_, production?_of_rule hbuild hrule,
          nullable_analyse_iff.mpr (.node hrule hslots)⟩

section

variable (quiet : NodeKind → Prop) (table : FactTable)

/-- What a part asks for where there is nothing: that it may be empty, and its node is quiet. -/
def Part.Vanishes (part : Part) : Prop :=
  part.nullable = true ∧ ∀ kind, part.symbol = .node kind → quiet kind

def Slot.Vanishes (slot : Slot) : Prop :=
  (table.ofSlot slot).nullable = true ∧ slot.multiplicity ≠ .oneOrMore ∧
    ∀ kind, .node kind ∈ slot.enters table → quiet kind

variable {quiet table} {slot : Slot} {symbols : List Symbol}

theorem vanishes_of_allowsZero (hzero : slot.multiplicity.allowsZero = true) :
    slot.Vanishes quiet table := by
  refine ⟨(nullable_ofSlot table).mpr (.inl hzero), ?_, ?_⟩
  · intro hmany
    rw [hmany] at hzero
    cases hzero
  · intro kind henters
    unfold Slot.enters at henters
    split at henters
    · next hone _ => rw [hone] at hzero; cases hzero
    · next hone _ => rw [hone] at hzero; cases hzero
    · cases henters

theorem vanishes_sequence (hone : slot.multiplicity = .exactlyOne)
    (hpattern : slot.pattern = .sequence symbols) :
    slot.Vanishes quiet table ↔ ∀ part ∈ partsOf table slot.pattern, part.Vanishes quiet := by
  have henters : slot.enters table = symbols := by
    unfold Slot.enters
    rw [hone, hpattern]
  have hnullable : (table.ofSlot slot).nullable = true ↔
      ∀ symbol ∈ symbols, table.Empties symbol := by
    rw [nullable_ofSlot, Slot.NullableBy, hone, hpattern]
    exact or_iff_right Bool.noConfusion
  have hparts : (∀ part ∈ partsOf table slot.pattern, part.Vanishes quiet) ↔
      ∀ symbol ∈ symbols, table.Empties symbol ∧ ∀ kind, symbol = .node kind → quiet kind := by
    rw [hpattern]
    show (∀ part ∈ partsOfSequence table symbols, part.Vanishes quiet) ↔ _
    clear hpattern henters hnullable
    induction symbols with
    | nil => simp [partsOfSequence]
    | cons symbol rest ih =>
        rw [partsOfSequence_cons, List.forall_mem_cons, List.forall_mem_cons, ih]
        rfl
  rw [hparts, Slot.Vanishes, hnullable, henters, hone]
  constructor
  · rintro ⟨hempty, -, hquiet⟩ symbol hsymbol
    refine ⟨hempty symbol hsymbol, ?_⟩
    rintro kind rfl
    exact hquiet kind hsymbol
  · intro hall
    refine ⟨fun symbol hsymbol => (hall symbol hsymbol).1, Multiplicity.noConfusion, ?_⟩
    exact fun kind hkind => (hall _ hkind).2 kind rfl

theorem vanishes_choice (hone : slot.multiplicity = .exactlyOne)
    (hpattern : slot.pattern = .choice symbols) :
    slot.Vanishes quiet table ↔
      ∃ part, (partsOf table slot.pattern).find? (·.nullable) = some part ∧
        part.Vanishes quiet := by
  have henters : slot.enters table =
      (symbols.find? fun symbol => (table.ofSymbol symbol).nullable).toList := by
    unfold Slot.enters
    rw [hone, hpattern]
  have hnullable : (table.ofSlot slot).nullable = true ↔
      ∃ symbol ∈ symbols, table.Empties symbol := by
    rw [nullable_ofSlot, Slot.NullableBy, hone, hpattern]
    exact or_iff_right Bool.noConfusion
  have hfind : (partsOf table slot.pattern).find? (·.nullable) =
      (symbols.find? fun symbol => (table.ofSymbol symbol).nullable).map (partOf table .empty) := by
    rw [hpattern, partsOf_choice, List.find?_map]
    rfl
  rw [hfind, Slot.Vanishes, hnullable, henters, hone]
  cases hfirst : symbols.find? fun symbol => (table.ofSymbol symbol).nullable with
  | none =>
      have hnone := List.find?_eq_none.mp hfirst
      constructor
      · rintro ⟨⟨symbol, hsymbol, hempty⟩, -⟩
        exact absurd hempty (hnone symbol hsymbol)
      · rintro ⟨part, hpart, -⟩
        cases hpart
  | some symbol =>
      have hempty : (table.ofSymbol symbol).nullable = true := by
        simpa using List.find?_some hfirst
      have hsymbol := List.mem_of_find?_eq_some hfirst
      constructor
      · rintro ⟨-, -, hquiet⟩
        refine ⟨_, rfl, hempty, ?_⟩
        rintro kind rfl
        exact hquiet kind (List.mem_singleton.mpr rfl)
      · rintro ⟨part, hpart, -, hquiet⟩
        obtain rfl := Option.some.inj hpart
        refine ⟨⟨symbol, hsymbol, hempty⟩, Multiplicity.noConfusion, ?_⟩
        intro kind hkind
        exact hquiet kind (List.mem_singleton.mp hkind).symm

/-- All slots of a rule vanish if its kind may be empty and comes to none that wants a match. -/
theorem vanishes_rule_iff {grammar : Grammar} (hbuild : build rules = .ok grammar) {levels : Nat}
    {kind : NodeKind} {rule : Rule} (hrule : (kind, rule) ∈ rules) :
    (∀ slot ∈ rule, slot.Vanishes (fun kind => ∀ slot, Rules.Reaches rules levels kind slot →
        slot.multiplicity ≠ .oneOrMore) (Rules.analyse rules)) ↔
      Rules.Nullable rules (.node kind) ∧ ∀ slot, Rules.Reaches rules (levels + 1) kind slot →
        slot.multiplicity ≠ .oneOrMore := by
  constructor
  · intro hvanish
    refine ⟨.node hrule fun slot hslot => nullable_analyse_slot_iff.mp (hvanish slot hslot).1, ?_⟩
    intro slot hreaches
    cases hreaches with
    | own hother hslot =>
        rw [rule_unique hbuild hother hrule] at hslot
        exact (hvanish slot hslot).2.1
    | inner hother hslot hinner hreaches =>
        rw [rule_unique hbuild hother hrule] at hslot
        exact (hvanish _ hslot).2.2 _ hinner slot hreaches
  · rintro ⟨hnullable, hquiet⟩ slot hslot
    refine ⟨?_, hquiet slot (.own hrule hslot), ?_⟩
    · apply nullable_analyse_slot_iff.mpr
      have hreaches : Rules.Reaches rules (levels + 1) kind slot := .own hrule hslot
      exact hreaches.nullableSlot hbuild hnullable
    · intro inner hinner other hreaches
      exact hquiet other (.inner hrule hslot hinner hreaches)

end

end Grammar

namespace Parse

open Grammar

/-- No token is to be seen, and who has a report knows of the newest one. -/
structure Spent (state : State) : Prop where
  horizon : state.horizon = 0
  known : state.reports = [] → state.lastReport = none

/-- Steps without a token in sight, which report nothing exactly if something holds. -/
def Passes (quiet : Prop) (before after : State) : Prop :=
  Spent before → Spent after ∧ (after.reports = [] ↔ before.reports = [] ∧ quiet)

section

variable {session : Session} {quiet other : Prop} {first second third state : State}

theorem Passes.refl (state : State) : Passes True state state := fun hspent =>
  ⟨hspent, (and_iff_left trivial).symm⟩

theorem Passes.trans (hfirst : Passes quiet first second) (hsecond : Passes other second third) :
    Passes (quiet ∧ other) first third := by
  intro hspent
  obtain ⟨hspent, hquiet⟩ := hfirst hspent
  obtain ⟨hspent, hother⟩ := hsecond hspent
  exact ⟨hspent, by rw [hother, hquiet, and_assoc]⟩

theorem Passes.congr (hpasses : Passes quiet first second) (hiff : other ↔ quiet) :
    Passes other first second := by
  rwa [propext hiff]

theorem passes_look (session : Session) (state : State) :
    Passes True state (state.look session) := by
  rw [State.look_eq]
  intro hspent
  exact ⟨⟨hspent.horizon, hspent.known⟩, (and_iff_left trivial).symm⟩

theorem passes_missing (expected : Lookahead) (what : String) (state : State) :
    Passes False state (state.missing .actual expected what) := by
  intro hspent
  by_cases hlast : state.lastReport = some state.position
  · have hreports : state.reports ≠ [] := by
      intro hnone
      cases (hspent.known hnone).symm.trans hlast
    rw [State.missing_of_reported hlast]
    exact ⟨hspent, by simp [hreports]⟩
  · rw [State.missing_of_unreported hlast]
    exact ⟨⟨hspent.horizon, fun hnone => absurd hnone (List.cons_ne_nil _ _)⟩, by simp⟩

theorem passes_push (shape : Shape) (state : State) : Passes True state (state.push shape) :=
  fun hspent => ⟨⟨hspent.horizon, hspent.known⟩, (and_iff_left trivial).symm⟩

theorem Passes.nest {kind : NodeKind} {body : State → State}
    (hbody : ∀ state, Passes quiet state (body state)) :
    Passes quiet state (state.nest kind body) := by
  intro hspent
  obtain ⟨hinner, hquiet⟩ := hbody { state with built := [] } ⟨hspent.horizon, hspent.known⟩
  exact ⟨⟨hinner.horizon, hinner.known⟩, hquiet⟩

theorem Spent.atEnd (hspent : Spent state) (hfinal : session.stream.final.kind = .eof) :
    (state.current session).kind = .eof := by
  have hbehind : ¬state.position < state.horizon := by
    rw [hspent.horizon]
    exact Nat.not_lt_zero _
  rw [State.current, if_neg hbehind, hfinal]

end

section

variable {session : Session} {enter : Enter} {quiet : NodeKind → Prop}

theorem passes_placeholder (part : Part) (state : State) :
    Passes False state (placeholder .actual part state) := by
  have hmissing := passes_missing part.first part.symbol.describe state
  unfold placeholder
  split
  · apply (hmissing.trans (passes_push _ _)).congr
    exact (and_iff_left trivial).symm
  · exact hmissing

variable (hsound : session.grammar.Sound)
  (henter : ∀ kind recovery state, session.grammar.Nullable kind →
    Passes (quiet kind) state (enter .actual kind recovery state))

include hsound henter

theorem passes_element {part : Part} (hpart : part ∈ session.grammar.parts)
    (hnullable : part.nullable = true) (recovery : Lookahead) (state : State) :
    Passes (part.Vanishes quiet) state (element enter .actual part recovery state) := by
  unfold element Part.Vanishes
  split
  · next kind hsymbol =>
      have hfacts := congrArg Facts.nullable (hsound.token hpart hsymbol).1
      cases hfacts.symm.trans hnullable
  · next text hsymbol =>
      have hfacts := congrArg Facts.nullable (hsound.word hpart hsymbol)
      cases hfacts.symm.trans hnullable
  · next kind hsymbol =>
      apply (henter kind recovery state (hsound.node hpart hsymbol hnullable)).congr
      simp [hnullable, hsymbol]

variable (hfinal : session.stream.final.kind = .eof)

include hfinal

theorem passes_expect {part : Part} (hpart : part ∈ session.grammar.parts) (follow : Lookahead)
    (state : State) :
    Passes (part.Vanishes quiet) state (expect enter session .actual part follow state) := by
  intro hspent
  have hlook := passes_look session state
  have heof := (hlook hspent).1.atEnd hfinal
  unfold expect
  dsimp only
  rw [hsound.avoids hpart heof, Bool.false_or]
  split
  · next hnullable =>
      have helement := passes_element hsound henter hpart hnullable follow (state.look session)
      exact (hlook.trans helement).congr (and_iff_right trivial).symm hspent
  · next hnullable =>
      rw [if_pos (by rw [heof]; exact Bool.or_true _)]
      have hmissing := passes_placeholder part (state.look session)
      apply (hlook.trans hmissing).congr _ hspent
      simp [Part.Vanishes, hnullable]

theorem passes_expectAll {parts : List Part} (hparts : ∀ part ∈ parts, part ∈ session.grammar.parts)
    (follow : Lookahead) (state : State) :
    Passes (∀ part ∈ parts, part.Vanishes quiet) state
      (expectAll enter session .actual parts follow state) := by
  induction parts generalizing state with
  | nil =>
      apply (Passes.refl state).congr
      exact iff_true_intro fun _ hpart => absurd hpart List.not_mem_nil
  | cons part rest ih =>
      obtain ⟨hpart, hrest⟩ := List.forall_mem_cons.mp hparts
      have hfirst := passes_expect hsound henter hfinal hpart (part.follow.union follow) state
      exact (hfirst.trans (ih hrest _)).congr List.forall_mem_cons

theorem passes_chooseOrReport (hreuse : session.reuse = false) {place : Place}
    (hparts : ∀ part ∈ place.parts, part ∈ session.grammar.parts) (follow : Lookahead)
    (state : State) :
    Passes (∃ part, place.parts.find? (·.nullable) = some part ∧ part.Vanishes quiet) state
      (chooseOrReport enter session .actual place follow state) := by
  intro hspent
  have hlook := passes_look session state
  rcases choose_cases hreuse enter .actual place.parts follow state with
    ⟨part, hpart, hadmits, -⟩ | ⟨-, hchoose⟩
  · rw [hsound.avoids (hparts part hpart) (hspent.atEnd hfinal)] at hadmits
    cases hadmits
  unfold chooseOrReport
  rw [hchoose]
  cases hfind : place.parts.find? (·.nullable) with
  | none =>
      have hmissing := passes_missing place.first place.first.describe (state.look session)
      apply (hlook.trans hmissing).congr _ hspent
      simp
  | some part =>
      have hpart := hparts part (List.mem_of_find?_eq_some hfind)
      have hnullable : part.nullable = true := by simpa using List.find?_some hfind
      have helement := passes_element hsound henter hpart hnullable follow (state.look session)
      apply (hlook.trans helement).congr _ hspent
      simp

variable {rules : Rules} (hbuild : build rules = .ok session.grammar)
  (hreuse : session.reuse = false)

include hbuild hreuse

theorem passes_required {place : Place} (hplace : session.grammar.Has place)
    (hone : place.slot.multiplicity = .exactlyOne) (follow : Lookahead) (state : State) :
    Passes (place.slot.Vanishes quiet (Rules.analyse rules)) state
      (required enter session .actual place follow state) := by
  obtain ⟨hfacts, -⟩ := place_of_build hbuild hplace
  intro hspent
  unfold required
  cases hpattern : place.slot.pattern with
  | sequence symbols =>
      have hall := passes_expectAll hsound henter hfinal hplace.parts follow state
      apply hall.congr _ hspent
      rw [hfacts, vanishes_sequence hone hpattern]
  | choice symbols =>
      have hlook := passes_look session state
      have heof := (hlook hspent).1.atEnd hfinal
      have hchoose :=
        passes_chooseOrReport hsound henter hfinal hreuse hplace.parts follow (state.look session)
      dsimp only
      rw [if_pos (by rw [heof]; exact Bool.or_true _)]
      apply (hlook.trans hchoose).congr _ hspent
      rw [hfacts, vanishes_choice hone hpattern, true_and]

theorem passes_slot {place : Place} (hplace : session.grammar.Has place)
    (hfirst : ∀ token : Token, token.kind = .eof → place.first.admits token = false)
    (recovery : Lookahead) (state : State) :
    Passes (place.slot.Vanishes quiet (Rules.analyse rules)) state
      (slot enter session .actual place recovery state) := by
  have hlook := passes_look session state
  intro hspent
  have heof := (hlook hspent).1.atEnd hfinal
  have hrepeated (follow : Lookahead) : repeated enter session .actual place follow state =
      if place.slot.multiplicity == .oneOrMore then
        (state.look session).missing .actual place.first place.first.describe
      else state.look session := by
    simp only [repeated, matchAll, heof, beq_self_eq_true, if_true, Bool.not_false, Bool.true_and]
  have hleft (hzero : place.slot.multiplicity.allowsZero = true) :
      place.slot.Vanishes quiet (Rules.analyse rules) ↔ True :=
    iff_true_intro (vanishes_of_allowsZero hzero)
  unfold slot
  cases hmultiplicity : place.slot.multiplicity with
  | exactlyOne =>
      exact passes_required hsound henter hfinal hbuild hreuse hplace hmultiplicity _ state hspent
  | zeroOrOne =>
      dsimp only
      rw [optional, hfirst _ heof, heof]
      exact hlook.congr (hleft (by rw [hmultiplicity]; rfl)) hspent
  | zeroOrMore =>
      dsimp only
      rw [hrepeated, hmultiplicity]
      exact hlook.congr (hleft (by rw [hmultiplicity]; rfl)) hspent
  | oneOrMore =>
      have hmissing := passes_missing place.first place.first.describe (state.look session)
      dsimp only
      rw [hrepeated, hmultiplicity]
      apply (hlook.trans hmissing).congr _ hspent
      simp [Slot.Vanishes, hmultiplicity]

theorem passes_slots {places : List Place}
    (hplaces : ∀ place ∈ places, session.grammar.Has place ∧
      ∀ token : Token, token.kind = .eof → place.first.admits token = false)
    (recovery : Lookahead) (state : State) :
    Passes (∀ place ∈ places, place.slot.Vanishes quiet (Rules.analyse rules)) state
      (places.foldl (fun state place => slot enter session .actual place recovery state)
        state) := by
  induction places generalizing state with
  | nil =>
      apply (Passes.refl state).congr
      exact iff_true_intro fun _ hplace => absurd hplace List.not_mem_nil
  | cons place rest ih =>
      obtain ⟨⟨hplace, hfirst⟩, hrest⟩ := List.forall_mem_cons.mp hplaces
      have hslot := passes_slot hsound henter hfinal hbuild hreuse hplace hfirst recovery state
      exact (hslot.trans (ih hrest _)).congr List.forall_mem_cons

end

section

variable {session : Session} {rules : Rules} (hbuild : build rules = .ok session.grammar)
  (heof : Symbol.token .eof ∉ Rules.symbols rules) (hfinal : session.stream.final.kind = .eof)
  (hreuse : session.reuse = false)

include hbuild heof hfinal hreuse

theorem passes_body {enter : Enter} {levels : Nat}
    (henter : ∀ kind recovery state, session.grammar.Nullable kind →
      Passes (∀ slot, Rules.Reaches rules levels kind slot → slot.multiplicity ≠ .oneOrMore) state
        (enter .actual kind recovery state))
    {kind : NodeKind} (hkind : session.grammar.contains kind = true) (recovery : Lookahead)
    (state : State) :
    Passes (session.grammar.Nullable kind ∧ ∀ slot, Rules.Reaches rules (levels + 1) kind slot →
        slot.multiplicity ≠ .oneOrMore) state
      (body enter session .actual kind recovery state) := by
  obtain ⟨production, hproduction⟩ := Option.isSome_iff_exists.mp hkind
  obtain ⟨rule, hrule, heq⟩ := production_of_rule hbuild hproduction
  have hplaces : ∀ place ∈ production.places, session.grammar.Has place ∧
      ∀ token : Token, token.kind = .eof → place.first.admits token = false := by
    intro place hplace
    refine ⟨⟨kind, production, hproduction, hplace⟩, ?_⟩
    intro token htoken
    rw [heq] at hplace
    have hslot := slot_mem_of_mem_placesOf hplace
    have hfirst := analyse_slot_avoids_eof heof (fun _ => Rules.mem_symbols hrule hslot) htoken
    rwa [← (mem_placesOf hplace).2] at hfirst
  have hslots := passes_slots (sound_of_build hbuild heof) henter hfinal hbuild hreuse hplaces
    recovery state
  rw [body, hproduction]
  apply hslots.congr
  rw [nullable_iff hbuild, ← vanishes_rule_iff hbuild hrule, heq]
  have hrules : rule = (placesOf (Rules.analyse rules) rule).map (·.slot) :=
    (placesOf_slots _ rule).symm
  conv_lhs => rw [hrules]
  exact List.forall_mem_map

/-- Entering a kind that may be empty makes no report unless a slot is reached that wants a match.
Where nesting is cut there is nothing to complain about. -/
theorem passes_node (levels : Nat) {kind : NodeKind} (hnullable : session.grammar.Nullable kind)
    (recovery : Lookahead) (state : State) :
    Passes (∀ slot, Rules.Reaches rules levels kind slot → slot.multiplicity ≠ .oneOrMore) state
      (node session levels .actual kind recovery state) := by
  induction levels generalizing kind recovery state with
  | zero =>
      apply Passes.nest
      intro state hspent
      have hlook := passes_look session state
      have heof := (hlook hspent).1.atEnd hfinal
      rw [cut, if_pos (show State.atEnd session _ = true by rw [State.atEnd, heof]; rfl)]
      apply hlook.congr _ hspent
      refine iff_true_intro fun slot hreaches => ?_
      cases hreaches
  | succ levels ih =>
      have hkind : session.grammar.contains kind = true := by
        obtain ⟨production, hproduction, -⟩ := hnullable
        exact Option.isSome_iff_exists.mpr ⟨production, hproduction⟩
      apply Passes.nest
      intro state
      have hbody := passes_body hbuild heof hfinal hreuse
        (fun kind recovery state hnullable => ih hnullable recovery state) hkind recovery state
      exact hbody.congr (and_iff_right hnullable).symm

theorem reports_run_iff {start : NodeKind} (hstart : session.grammar.contains start = true)
    (hsize : session.stream.size = 0) :
    (run session start).reports = [] ↔ session.grammar.Nullable start ∧
      ∀ slot, Rules.Reaches rules (depthLimit + 1) start slot →
        slot.multiplicity ≠ .oneOrMore := by
  have hspent : Spent (.initial session) := ⟨hsize, fun _ => rfl⟩
  have hbody := passes_body hbuild heof hfinal hreuse
    (fun kind recovery state hnullable =>
      passes_node hbuild heof hfinal hreuse depthLimit hnullable recovery state)
    hstart (.ofKind .eof) (.initial session)
  have hlook := hbody.trans (passes_look session _)
  obtain ⟨hafter, hreports⟩ := hlook hspent
  have hend := hafter.atEnd hfinal
  unfold run
  dsimp only
  rw [if_pos (show State.atEnd session _ = true by rw [State.atEnd, hend]; rfl), hreports]
  simp [State.initial]

end

theorem size_of_blank {tokens : List Token}
    (hblank : ∀ token ∈ tokens, token.isTrivia = true ∨ token.kind = .eof) :
    (Stream.ofTokens tokens).size = 0 := by
  have hwords : (Stream.group (tokens.takeWhile (·.kind != .eof))).2 = [] := by
    apply List.eq_nil_iff_forall_not_mem.mpr
    intro word hword
    obtain ⟨hmem, hcontent⟩ := Stream.group_significant _ hword
    have hkind := List.mem_takeWhile_imp hmem
    rcases hblank _ (List.takeWhile_subset _ hmem) with htrivia | heof
    · cases hcontent.symm.trans htrivia
    · rw [heof] at hkind
      cases hkind
  show (Stream.group _).2.toArray.size = 0
  rw [hwords]
  rfl

variable {rules : Rules} {grammar : Grammar} {start : NodeKind} {tokens : List Token}

theorem problems_iff_of_blank (hbuild : build rules = .ok grammar)
    (heof : Symbol.token .eof ∉ Rules.symbols rules) (hstart : grammar.contains start = true)
    (settings : Settings) (hordered : Token.Ordered tokens)
    (hblank : ∀ token ∈ tokens, token.isTrivia = true ∨ token.kind = .eof) :
    ∃ parsed, parseTokens grammar settings start tokens = .ok parsed ∧
      (parsed.problems = [] ↔ grammar.Nullable start ∧
        ∀ slot, Rules.Reaches rules (depthLimit + 1) start slot →
          slot.multiplicity ≠ .oneOrMore) := by
  obtain ⟨shapes, reports, problems, htraced, hproblems, hparse⟩ :=
    parse_eq grammar settings start hordered
  refine ⟨_, parseTokens_eq hstart settings hparse, ?_⟩
  have hbuilt : build rules = .ok (Session.of grammar settings tokens).afresh.grammar := hbuild
  have hreports := reports_run_iff hbuilt heof (Stream.final_ofTokens tokens) rfl hstart
    (size_of_blank hblank)
  rw [htraced.reports_eq, List.reverse_eq_nil_iff] at hreports
  refine Iff.trans ?_ hreports
  constructor
  · rintro rfl
    exact reports_eq_nil hproblems
  · rintro rfl
    exact (Except.ok.inj hproblems).symm

/-- A module of pragmas and a body, which is a number or a block without an item. -/
def bareModule : Rules :=
  [(.construct .module, [.many [.node (.construct .pragma)], .all [.node (.construct .body)]]),
    (.construct .body, [.oneOf [.token .integer, .node (.construct .declarationBlock)]]),
    (.construct .declarationBlock, [.allOrNone [.token .semi]]),
    (.construct .pragma, [.some [.token .pragma]])]

def blankTokens : List Token := [.covering .whitespace 0 "  ", .eof 2]

/-- Parsing and the analysis agree on emptiness but for the slots that want a match: without a
token to parse there is no problem exactly if the start kind may be empty, and none of these slots
is come to on the way. So they agree throughout where a match in such a slot is never empty. -/
theorem parseTokens_blank (hbuild : build rules = .ok grammar)
    (heof : Symbol.token .eof ∉ Rules.symbols rules) (hstart : grammar.contains start = true)
    (settings : Settings) (hordered : Token.Ordered tokens)
    (hblank : ∀ token ∈ tokens, token.isTrivia = true ∨ token.kind = .eof) :
    ∃ parsed, parseTokens grammar settings start tokens = .ok parsed ∧
      (parsed.problems = [] ↔ grammar.Nullable start ∧
        ∀ slot, Rules.Reaches rules (depthLimit + 1) start slot →
          slot.multiplicity ≠ .oneOrMore) ∧
      ((∀ entry ∈ rules, ∀ slot ∈ entry.2, slot.multiplicity = .oneOrMore →
          ¬Rules.NullableSlot rules slot) →
        (parsed.problems = [] ↔ grammar.Nullable start)) := by
  obtain ⟨parsed, hparse, hproblems⟩ :=
    problems_iff_of_blank hbuild heof hstart settings hordered hblank
  refine ⟨parsed, hparse, hproblems, fun hfilled => ?_⟩
  rw [hproblems, and_iff_left_iff_imp]
  intro hnullable slot hreaches hmany
  obtain ⟨entry, hentry, hslot⟩ := hreaches.exists_entry
  apply hfilled entry hentry slot hslot hmany
  exact hreaches.nullableSlot hbuild ((nullable_iff hbuild).mp hnullable)

theorem parseTokens_blank_of_bareModule :
    ∃ parsed,
      parseTokens (compile bareModule) .default (.construct .module) blankTokens = .ok parsed ∧
      (parsed.problems = [] ↔ (compile bareModule).Nullable (.construct .module) ∧
        ∀ slot, Rules.Reaches bareModule (depthLimit + 1) (.construct .module) slot →
          slot.multiplicity ≠ .oneOrMore) ∧
      ((∀ entry ∈ bareModule, ∀ slot ∈ entry.2, slot.multiplicity = .oneOrMore →
          ¬Rules.NullableSlot bareModule slot) →
        (parsed.problems = [] ↔ (compile bareModule).Nullable (.construct .module))) :=
  parseTokens_blank (show build bareModule = _ from rfl) (by decide) (by decide) .default
    (by unfold Token.Ordered; decide) (by decide)

/-- A block of pragmas, of which there is one at least, and each of which may be left out. -/
def optionalPragmas : Rules :=
  [(.construct .declarationBlock, [.some [.node (.construct .pragma)]]),
    (.construct .pragma, [.allOrNone [.token .pragma]])]

/-- The analysis lets the block of pragmas be empty, and parsing wants a pragma there. -/
theorem exists_empty_reported : build optionalPragmas = .ok (compile optionalPragmas) ∧
    Symbol.token .eof ∉ Rules.symbols optionalPragmas ∧
    (compile optionalPragmas).Nullable (.construct .declarationBlock) ∧
    ∃ parsed, parseTokens (compile optionalPragmas) .default (.construct .declarationBlock) [] =
      .ok parsed ∧ parsed.problems ≠ [] := by
  have hbuild : build optionalPragmas = .ok (compile optionalPragmas) := rfl
  have heof : Symbol.token .eof ∉ Rules.symbols optionalPragmas := by decide
  have hpragma : Rules.Nullable optionalPragmas (.node (.construct .pragma)) := by
    apply Rules.Nullable.node (List.mem_cons_of_mem _ List.mem_cons_self)
    intro slot hslot
    obtain rfl := List.mem_singleton.mp hslot
    exact .zero rfl
  have hblock : Rules.Nullable optionalPragmas (.node (.construct .declarationBlock)) := by
    apply Rules.Nullable.node List.mem_cons_self
    intro slot hslot
    obtain rfl := List.mem_singleton.mp hslot
    exact .choice rfl List.mem_cons_self hpragma
  refine ⟨hbuild, heof, (nullable_iff hbuild).mpr hblock, ?_⟩
  obtain ⟨parsed, hparse, hproblems⟩ := problems_iff_of_blank hbuild heof
    ((contains_iff hbuild).mpr List.mem_cons_self) .default List.Pairwise.nil
    fun _ htoken => absurd htoken List.not_mem_nil
  refine ⟨parsed, hparse, ?_⟩
  intro hnone
  obtain ⟨-, hquiet⟩ := hproblems.mp hnone
  exact hquiet _ (.own List.mem_cons_self List.mem_cons_self) rfl

end Parse

end LosslessTree
