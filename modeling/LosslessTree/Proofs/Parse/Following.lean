import LosslessTree.Proofs.Parse.Reading

/-!
Slots follow a tree where one token of lookahead is enough. Where some branches are due, the token
in front is the first of them or leads what comes behind, and so each part of the engine reads the
branches that a slot holds and stops where they end.
-/

namespace LosslessTree

namespace Parse

open Grammar

variable {session : Session}

/-- Some branches are to be read next: they stand in a form that derives from the start kind, and
what comes behind them is awaited. -/
structure Due (session : Session) (rules : Rules) (start : NodeKind) (levels : Nat)
    (branches : List Branch) (after : List Symbol) (recovery : Lookahead) (rest : List Content)
    (state : State) : Prop where
  derived : ∀ branch ∈ branches, branch.Derived rules levels
  derives : ∃ before,
    Derives rules [.node start] (before ++ branches.map (·.symbol) ++ after)
  awaits : Awaits rules after recovery rest
  faces : state.Faces session (contentsOf branches ++ rest)

variable {rules : Rules} {start : NodeKind} {levels : Nat} {branches more : List Branch}
  {branch : Branch} {after : List Symbol} {recovery : Lookahead} {rest : List Content}
  {state : State}

namespace Due

theorem touch (hdue : Due session rules start levels branches after recovery rest state)
    (touched : Bool) :
    Due session rules start levels branches after recovery rest { state with touched } :=
  ⟨hdue.derived, hdue.derives, hdue.awaits, hdue.faces.touch touched⟩

theorem look (hdue : Due session rules start levels branches after recovery rest state) :
    Due session rules start levels branches after recovery rest (state.look session) :=
  ⟨hdue.derived, hdue.derives, hdue.awaits, hdue.faces.look⟩

variable (hdue : Due session rules start levels (branches ++ more) after recovery rest state)

include hdue

theorem front {set : Lookahead}
    (hawaits : Awaits rules (more.map (·.symbol) ++ after) set (contentsOf more ++ rest)) :
    Due session rules start levels branches (more.map (·.symbol) ++ after) set
      (contentsOf more ++ rest) state where
  derived := (List.forall_mem_append.mp hdue.derived).1
  derives := by
    obtain ⟨before, hderives⟩ := hdue.derives
    exact ⟨before, by simpa using hderives⟩
  awaits := hawaits
  faces := by simpa using hdue.faces

theorem back {outlines : List (Outline String)} {next : State}
    (hreads : Reads session outlines (contentsOf more ++ rest) state next) :
    Due session rules start levels more after recovery rest next where
  derived := (List.forall_mem_append.mp hdue.derived).2
  derives := by
    obtain ⟨before, hderives⟩ := hdue.derives
    exact ⟨before ++ branches.map (·.symbol), by simpa using hderives⟩
  awaits := hdue.awaits
  faces := hreads.faces

theorem awaits_rest {set : Lookahead}
    (hoffers : ∀ content others, contentsOf more = content :: others →
      set.offers content = true) :
    Awaits rules (more.map (·.symbol) ++ after) (set.union recovery) (contentsOf more ++ rest) :=
  hdue.awaits.prepend (.of_derived (List.forall_mem_append.mp hdue.derived).2) hoffers

end Due

theorem offers_recoveryOf (place : Place) {follow : Lookahead} {content : Content}
    (hoffers : follow.offers content = true ∨ place.first.offers content = true ∨
      place.slot.separator = some content.1) :
    (recoveryOf place follow).offers content = true := by
  unfold recoveryOf
  dsimp only
  rcases hoffers with hfollow | hfirst | hseparator
  · split <;> simp [hfollow]
  · split <;> simp [hfirst]
  · rw [hseparator]
    simp

section

variable {enter : Enter} {place : Place} {follow : Lookahead} (rounds : Nat)

theorem matchAll_stop (expecting found : Bool)
    (hstop : (state.current session).kind = .eof ∨
      place.slot.separator ≠ some (state.current session).kind ∧
        place.first.admits (state.current session) = false ∧
          follow.admits (state.current session) = true) :
    matchAll enter session .actual place follow recovery (rounds + 1) expecting found state =
      (state.look session, found) := by
  rw [← State.current_look] at hstop
  unfold matchAll
  dsimp only
  rcases hstop with hend | ⟨hseparator, hfirst, hfollow⟩
  · rw [if_pos (by simpa using hend)]
  · split
    · rfl
    · simp [hseparator, hfirst]

theorem matchAll_match (found : Bool) (hend : (state.current session).kind ≠ .eof)
    (hfirst : place.first.admits (state.current session) = true)
    (hmoved : (once enter session .actual place recovery (state.look session)).position ≠
      (state.look session).position) :
    matchAll enter session .actual place follow recovery (rounds + 1) true found state =
      matchAll enter session .actual place follow recovery rounds place.slot.separator.isNone true
        (once enter session .actual place recovery (state.look session)) := by
  rw [← State.current_look] at hend hfirst
  rw [matchAll]
  dsimp only
  rw [if_neg (by simpa using hend), if_neg (by simp), if_pos (by simpa using hfirst),
    if_neg hmoved]

theorem matchAll_separator (found : Bool) (hend : (state.current session).kind ≠ .eof)
    (hseparator : place.slot.separator = some (state.current session).kind) :
    matchAll enter session .actual place follow recovery (rounds + 1) false found state =
      matchAll enter session .actual place follow recovery rounds true found
        (state.look session).bump := by
  rw [← State.current_look] at hend hseparator
  rw [matchAll]
  dsimp only
  rw [if_neg (by simpa using hend), if_pos (by simp [hseparator])]

end

structure Follows (session : Session) (rules : Rules) (start : NodeKind) (levels : Nat)
    (enter : Enter) : Prop where
  reads {kind : NodeKind} {tree : Outline String} {after : List Symbol} {recovery : Lookahead}
    {rest : List Content} {state : State} :
    Due session rules start levels [⟨.node kind, tree⟩] after recovery rest state →
      Reads session [tree] rest state (enter .actual kind recovery state)

section

variable {enter : Enter} (behind : Rule) (hfollows : Follows session rules start levels enter)

include hfollows

theorem reads_element (follow : Lookahead)
    (hdue : Due session rules start levels [branch] after recovery rest state) :
    Reads session [branch.tree] rest state
      (element enter .actual (partOf (Rules.analyse rules) follow branch.symbol) recovery
        state) := by
  have hderivation := (hdue.derived branch List.mem_cons_self).derivation
  have hfaces := hdue.faces
  rw [contentsOf_cons, contentsOf_nil, List.append_nil] at hfaces
  obtain ⟨symbol, tree⟩ := branch
  unfold element partOf
  cases hderivation with
  | token kind text => exact .bump hfaces
  | word text => exact .bump hfaces
  | node _ _ _ => exact hfollows.reads hdue

variable (hsettled : LL1 rules start)

include hsettled

theorem reads_expect (follow : Lookahead)
    (hdue : Due session rules start levels [branch] after recovery rest state) :
    Reads session [branch.tree] rest state
      (expect enter session .actual (partOf (Rules.analyse rules) follow branch.symbol) recovery
        state) := by
  have hallows := (hdue.derived branch List.mem_cons_self).derivation.allows hsettled
  have hfaces := hdue.look.faces
  have hfit : ((partOf (Rules.analyse rules) follow branch.symbol).first.admits
      ((state.look session).current session) ||
        (partOf (Rules.analyse rules) follow branch.symbol).nullable) = true := by
    unfold partOf
    cases hyield : branch.tree.yield with
    | nil => simp [hallows.nullable hyield]
    | cons content more =>
        rw [contentsOf_cons, hyield] at hfaces
        simp [hfaces.admits, hallows.offers hyield]
  unfold expect
  dsimp only
  rw [if_pos hfit]
  exact (reads_element hfollows follow hdue.look).after_look

theorem reads_expectAll
    (hdue : Due session rules start levels branches after recovery rest state) :
    Reads session (branches.map (·.tree)) rest state
      (expectAll enter session .actual
        (partsOfSequence (Rules.analyse rules) (branches.map (·.symbol))) recovery state) := by
  induction branches generalizing state with
  | nil => exact .nothing hdue.faces
  | cons branch others ih =>
      have hothers := allows_branches hsettled (List.forall_mem_cons.mp hdue.derived).2
      rw [← List.singleton_append] at hdue
      have hbranch := reads_expect hfollows hsettled
        (Facts.ofSequence ((others.map (·.symbol)).map (Rules.analyse rules).ofSymbol)).first
        (hdue.front (hdue.awaits_rest fun _ _ => hothers.offers))
      rw [List.map_cons, List.map_cons, partsOfSequence_cons, expectAll]
      exact hbranch.append (ih (hdue.back hbranch))

theorem reads_sequence {symbols : List Symbol}
    (haccepts : (Pattern.sequence symbols).Accepts True Symbol.Labels branches)
    (hdue : Due session rules start levels branches after recovery rest state) :
    Reads session (branches.map (·.tree)) rest state
      (expectAll enter session .actual (partsOfSequence (Rules.analyse rules) symbols) recovery
        state) := by
  rw [← form_of_sequence (Pattern.symbols_of_labels haccepts)]
  exact reads_expectAll hfollows hsettled hdue

variable {kind : NodeKind} {rule : Rule} {slot : Slot}
  (hreuse : session.reuse = false) (hfinal : session.stream.final.kind = .eof)
  (hsignificant : session.stream.Significant) (hrule : (kind, rule) ∈ rules) (hslot : slot ∈ rule)

include hrule hslot

omit hfollows in
theorem symbol_of_admits {symbols : List Symbol} (hpattern : slot.pattern = .choice symbols)
    (hbranch : branch.symbol ∈ symbols)
    (hrefuses : branch.tree.yield = [] →
      ((Rules.analyse rules).ofSlot slot).first.admits (state.current session) = false)
    (hdue : Due session rules start levels [branch] after recovery rest state) {symbol : Symbol}
    (hsymbol : symbol ∈ symbols)
    (hadmits : ((Rules.analyse rules).ofSymbol symbol).first.admits (state.current session) =
      true) : symbol = branch.symbol := by
  have hallows := (hdue.derived branch List.mem_cons_self).derivation.allows hsettled
  have hfaces := hdue.faces
  by_contra hne
  -- The token in front is the first below the branch, which no other symbol of the choice begins
  -- with. If there is nothing below, it comes behind, and the whole slot refuses it.
  cases hyield : branch.tree.yield with
  | nil =>
      have hrefused := hrefuses hyield
      rw [FactTable.ofSlot, hpattern] at hrefused
      have hoffers := (Facts.ofChoice_of_mem (List.mem_map_of_mem hsymbol)).2 _ hadmits
      rw [FactTable.ofPattern, hoffers] at hrefused
      cases hrefused
  | cons content more =>
      rw [contentsOf_cons, hyield] at hfaces
      have hother := (hsettled.choice hrule hslot hpattern hbranch hsymbol (Ne.symm hne)).1 content
        (hallows.offers hyield)
      rw [hfaces.admits, hother] at hadmits
      cases hadmits

include hreuse

theorem reads_chooseOrReport {symbols : List Symbol} (hpattern : slot.pattern = .choice symbols)
    (hbranch : branch.symbol ∈ symbols)
    (hrefuses : branch.tree.yield = [] →
      ((Rules.analyse rules).ofSlot slot).first.admits (state.current session) = false)
    (hdue : Due session rules start levels [branch] after recovery rest state) :
    Reads session [branch.tree] rest state
      (chooseOrReport enter session .actual (placeOf (Rules.analyse rules) slot behind) recovery
        state) := by
  have hallows := (hdue.derived branch List.mem_cons_self).derivation.allows hsettled
  have hparts : (placeOf (Rules.analyse rules) slot behind).parts =
      symbols.map (partOf (Rules.analyse rules) .empty) := by
    rw [placeOf, hpattern, partsOf_choice]
  unfold chooseOrReport
  rw [hparts]
  rcases choose_cases hreuse enter .actual (symbols.map (partOf (Rules.analyse rules) .empty))
    recovery state with ⟨part, hpart, hadmits, touched, heq⟩ | ⟨hnone, heq⟩
  · obtain ⟨symbol, hsymbol, rfl⟩ := List.mem_map.mp hpart
    obtain rfl : symbol = branch.symbol :=
      symbol_of_admits hsettled hrule hslot hpattern hbranch hrefuses hdue hsymbol hadmits
    rw [heq]
    exact (reads_element hfollows .empty (hdue.touch _)).after_touch
  · have hnullable : ((Rules.analyse rules).ofSymbol branch.symbol).nullable = true := by
      cases hyield : branch.tree.yield with
      | nil => exact hallows.nullable hyield
      | cons content more =>
          have hfaces := hdue.faces
          have hrefused := hnone _ (List.mem_map_of_mem hbranch)
          rw [contentsOf_cons, hyield] at hfaces
          rw [hfaces.admits, partOf, hallows.offers hyield] at hrefused
          cases hrefused
    cases hfind : (symbols.map (partOf (Rules.analyse rules) .empty)).find? (·.nullable) with
    | none =>
        have hpart := List.find?_eq_none.mp hfind _ (List.mem_map_of_mem hbranch)
        exact absurd hnullable hpart
    | some part =>
        obtain ⟨symbol, hsymbol, rfl⟩ := List.mem_map.mp (List.mem_of_find?_eq_some hfind)
        have hsame : symbol = branch.symbol := by
          by_contra hne
          have hother := (hsettled.choice hrule hslot hpattern hbranch hsymbol (Ne.symm hne)).2
            hnullable
          have hfound := List.find?_some hfind
          rw [partOf, hother] at hfound
          cases hfound
        rw [heq, hfind, hsame]
        exact (reads_element hfollows .empty hdue.look).after_look

theorem reads_once (haccepts : slot.pattern.Accepts True Symbol.Labels branches)
    (hrefuses : contentsOf branches = [] →
      ((Rules.analyse rules).ofSlot slot).first.admits (state.current session) = false)
    (hdue : Due session rules start levels branches after recovery rest state) :
    Reads session (branches.map (·.tree)) rest state
      (once enter session .actual (placeOf (Rules.analyse rules) slot behind) recovery state) := by
  unfold once
  cases hpattern : slot.pattern with
  | sequence symbols =>
      rw [hpattern] at haccepts
      simp only [placeOf, hpattern]
      exact reads_sequence hfollows hsettled haccepts hdue
  | choice symbols =>
      rw [hpattern] at haccepts
      obtain ⟨branch, hbranch, rfl⟩ := label_of_choice haccepts
      rw [contentsOf_cons, contentsOf_nil, List.append_nil] at hrefuses
      have hread := reads_chooseOrReport behind hfollows hsettled hreuse hrule hslot hpattern
        hbranch hrefuses hdue
      simp only [placeOf, hpattern]
      simp only [placeOf, hpattern] at hread
      exact hread

theorem reads_required (hone : slot.multiplicity = .exactlyOne)
    (hslotted : slot.Accepts True Symbol.Labels branches)
    (hrefuses : contentsOf branches = [] →
      ((Rules.analyse rules).ofSlot slot).first.admits (state.current session) = false)
    (hdue : Due session rules start levels branches after recovery rest state) :
    Reads session (branches.map (·.tree)) rest state
      (required enter session .actual (placeOf (Rules.analyse rules) slot behind) recovery
        state) := by
  have hallows := allows_slot hsettled hdue.derived hrule hslot hslotted
  have haccepts : slot.pattern.Accepts True Symbol.Labels branches := by
    simpa only [Slot.Accepts, hone] using hslotted
  rw [← State.current_look] at hrefuses
  unfold required
  cases hpattern : slot.pattern with
  | sequence symbols =>
      rw [hpattern] at haccepts
      simp only [placeOf, hpattern]
      exact reads_sequence hfollows hsettled haccepts hdue
  | choice symbols =>
      have hstop : ((placeOf (Rules.analyse rules) slot behind).nullable ||
          ((placeOf (Rules.analyse rules) slot behind).first.union recovery).admits
            ((state.look session).current session) ||
          ((state.look session).current session).kind == .eof) = true := by
        have hfaces := hdue.look.faces
        unfold placeOf
        cases hcontents : contentsOf branches with
        | nil => simp [hallows.nullable hcontents]
        | cons content more =>
            rw [hcontents] at hfaces
            simp [hfaces.admits, hallows.offers hcontents]
      have honce := reads_once behind hfollows hsettled hreuse hrule hslot haccepts hrefuses
        hdue.look
      unfold once at honce
      simp only [placeOf, hpattern] at honce hstop ⊢
      rw [if_pos hstop]
      exact honce.after_look

include hfinal

theorem reads_optional (hone : slot.multiplicity = .zeroOrOne)
    (hslotted : slot.Accepts True Symbol.Labels branches)
    (hrefuses : contentsOf branches = [] →
      ((Rules.analyse rules).ofSlot slot).first.admits (state.current session) = false)
    (hdue : Due session rules start levels branches after recovery rest state) :
    Reads session (branches.map (·.tree)) rest state
      (optional enter session .actual (placeOf (Rules.analyse rules) slot behind) recovery
        state) := by
  have hsolid := hsettled.solid _ hrule slot hslot
  have hallows := allows_slot hsettled hdue.derived hrule hslot hslotted
  have hfaces := hdue.look.faces
  have hmatch : branches = [] ∨ slot.pattern.Accepts True Symbol.Labels branches := by
    simpa only [Slot.Accepts, hone] using hslotted
  rw [← State.current_look] at hrefuses
  unfold optional
  dsimp only
  apply Reads.after_look
  cases hcontents : contentsOf branches with
  | nil =>
      have hnil : branches = [] := by
        apply hmatch.resolve_right
        intro haccepts
        exact contents_ne_nil hsettled hdue.derived
          (hsolid (by rw [hone]; exact Multiplicity.noConfusion)) haccepts hcontents
      subst hnil
      have hstop : (((state.look session).current session).kind == .eof ||
          recovery.admits ((state.look session).current session)) = true := by
        cases hrest : rest with
        | nil =>
            rw [hrest] at hfaces
            simp [hfaces.at_end hfinal]
        | cons content more =>
            rw [hrest] at hfaces
            simp [hfaces.admits, (hdue.awaits content more hrest).2]
      rw [if_neg (by simpa [placeOf] using hrefuses hcontents), if_pos hstop]
      exact .nothing hfaces
  | cons content more =>
      have haccepts : slot.pattern.Accepts True Symbol.Labels branches := by
        apply hmatch.resolve_left
        intro hnil
        rw [hnil] at hcontents
        cases hcontents
      have hadmits : (placeOf (Rules.analyse rules) slot behind).first.admits
          ((state.look session).current session) = true := by
        rw [hcontents] at hfaces
        rw [hfaces.admits, placeOf, hallows.offers hcontents]
      rw [if_pos hadmits]
      exact reads_once behind hfollows hsettled hreuse hrule hslot haccepts hrefuses hdue.look

omit hfinal hreuse hfollows in
theorem awaits_between {expecting : Bool} {count : Nat}
    (hrepeats : slot.Repeats True Symbol.Labels expecting count branches)
    (hmultiplicity : slot.multiplicity.isRepeated = true)
    (hbelow : ∀ branch ∈ branches, branch.Derived rules levels)
    (hawaits : Awaits rules after recovery rest) :
    Awaits rules (branches.map (·.symbol) ++ after)
      (recoveryOf (placeOf (Rules.analyse rules) slot behind) recovery)
      (contentsOf branches ++ rest) := by
  have hopens := Opens.of_derived hbelow
  intro content others hcons
  -- What comes next follows the slot, or is the first of a match or a separator.
  cases hcontents : contentsOf branches with
  | nil =>
      rw [hcontents, List.nil_append] at hcons
      obtain ⟨hleads, hoffers⟩ := hawaits content others hcons
      exact ⟨hleads.of_derives (hopens.vanishes hcontents after),
        offers_recoveryOf _ (.inl hoffers)⟩
  | cons first more =>
      rw [hcontents, List.cons_append] at hcons
      obtain rfl := (List.cons.inj hcons).1
      have hoffers := offers_of_repeats hsettled hbelow hrule hslot hrepeats hmultiplicity hcontents
      exact ⟨hopens.leads hcontents after, offers_recoveryOf _ (.inr hoffers)⟩

include hsignificant

theorem reads_matchAll {expecting : Bool} {count : Nat}
    (hrepeats : slot.Repeats True Symbol.Labels expecting count branches)
    (hmultiplicity : slot.multiplicity.isRepeated = true)
    (hended : ∀ content, Leads rules after content →
      ((Rules.analyse rules).ofSlot slot).first.offers content = false ∧
        slot.separator ≠ some content.1)
    (rounds : Nat) (hrounds : (contentsOf branches).length < rounds) (found : Bool)
    (hdue : Due session rules start levels branches after recovery rest state) :
    ∃ next, matchAll enter session .actual (placeOf (Rules.analyse rules) slot behind) recovery
        (recoveryOf (placeOf (Rules.analyse rules) slot behind) recovery) rounds expecting found
        state = (next, found || decide (0 < count)) ∧
      Reads session (branches.map (·.tree)) rest state next := by
  -- Each match and each separator takes at least one of the contents, so the rounds are enough.
  induction hrepeats generalizing rounds found state with
  | stop expecting =>
      obtain ⟨rounds, rfl⟩ := Nat.exists_eq_succ_of_ne_zero (Nat.ne_zero_of_lt hrounds)
      have hfaces := hdue.faces
      refine ⟨state.look session, ?_, .after_look (.nothing hdue.look.faces)⟩
      rw [decide_eq_false (Nat.lt_irrefl 0), Bool.or_false]
      apply matchAll_stop
      cases hrest : rest with
      | nil =>
          rw [hrest] at hfaces
          exact .inl (hfaces.at_end hfinal)
      | cons content more =>
          rw [hrest] at hfaces
          obtain ⟨hleads, hoffers⟩ := hdue.awaits content more hrest
          obtain ⟨hfirst, hseparator⟩ := hended content hleads
          rw [hfaces.admits, hfaces.admits, hfaces.kind]
          exact .inr ⟨hseparator, hfirst, hoffers⟩
  | @item count items others hitems hothers ih =>
      obtain ⟨rounds, rfl⟩ := Nat.exists_eq_succ_of_ne_zero (Nat.ne_zero_of_lt hrounds)
      obtain ⟨hbelow, hbehind⟩ := List.forall_mem_append.mp hdue.derived
      have hsolid := hsettled.solid_of_repeated hrule hslot hmultiplicity
      have hsome := contents_ne_nil hsettled hbelow hsolid hitems
      have hallows := allows_pattern hsettled hbelow hitems
      have hawaits := awaits_between behind hsettled hrule hslot hothers hmultiplicity
        hbehind hdue.awaits
      have honce := reads_once behind hfollows hsettled hreuse hrule hslot hitems
        (fun hnil => absurd hnil hsome) (hdue.look.front hawaits)
      have hmoved := honce.moves (hdue.look.front hawaits).faces hsome
      have hfaces := (hdue.front hawaits).faces
      obtain ⟨content, more, hcontents⟩ := List.exists_cons_of_ne_nil hsome
      rw [hcontents, List.cons_append] at hfaces
      rw [contentsOf_append, List.length_append, hcontents, List.length_cons] at hrounds
      obtain ⟨next, hmatch, hreads⟩ := ih rounds (by omega) true (hdue.look.back honce)
      refine ⟨next, ?_, ?_⟩
      · rw [matchAll_match rounds found (hfaces.not_at_end hsignificant) ?_ hmoved]
        · exact hmatch.trans (by simp)
        · rw [hfaces.admits]
          exact hallows.offers hcontents
      · rw [List.map_append]
        exact .after_look (honce.append hreads)
  | @separator kind count branch others hseparator hlabels hothers ih =>
      obtain ⟨rounds, rfl⟩ := Nat.exists_eq_succ_of_ne_zero (Nat.ne_zero_of_lt hrounds)
      have hderivation := (hdue.derived branch List.mem_cons_self).derivation
      rw [← show _ = branch.symbol from hlabels] at hderivation
      obtain ⟨symbol, tree⟩ := branch
      cases hderivation with
      | token kind text =>
          have hfaces := hdue.faces
          rw [contentsOf_cons, List.append_assoc] at hfaces
          rw [contentsOf_cons, List.length_append] at hrounds
          have hbump := Reads.bump hfaces.look
          rw [← List.singleton_append] at hdue
          rw [Outline.yield, List.length_singleton] at hrounds
          obtain ⟨next, hmatch, hreads⟩ := ih rounds (by omega) found (hdue.look.back hbump)
          refine ⟨next, ?_, .after_look (hbump.append hreads)⟩
          rw [matchAll_separator rounds found (hfaces.not_at_end hsignificant), hmatch]
          rw [hfaces.kind]
          exact hseparator

theorem reads_repeated (hmultiplicity : slot.multiplicity.isRepeated = true)
    (hslotted : slot.Accepts True Symbol.Labels branches)
    (hended : ∀ content, Leads rules after content →
      ((Rules.analyse rules).ofSlot slot).first.offers content = false ∧
        slot.separator ≠ some content.1)
    (hdue : Due session rules start levels branches after recovery rest state) :
    Reads session (branches.map (·.tree)) rest state
      (repeated enter session .actual (placeOf (Rules.analyse rules) slot behind) recovery
        state) := by
  obtain ⟨count, hcount, hrepeats⟩ := hslotted.exists_repeats hmultiplicity
  have hlength := congrArg List.length hdue.faces.ahead
  simp only [Session.ahead, List.length_map, List.length_drop, Array.length_toList,
    List.length_append] at hlength
  have hrounds : (contentsOf branches).length < session.stream.size - state.position + 1 := by
    unfold Stream.size
    omega
  obtain ⟨next, hmatch, hreads⟩ := reads_matchAll behind hfollows hsettled hreuse hfinal
    hsignificant hrule hslot hrepeats hmultiplicity hended _ hrounds false hdue
  unfold repeated
  dsimp only
  rw [hmatch]
  have hfound : ¬(!(false || decide (0 < count)) &&
      (placeOf (Rules.analyse rules) slot behind).slot.multiplicity == .oneOrMore) = true := by
    intro hmissing
    simp only [Bool.false_or, Bool.and_eq_true, Bool.not_eq_true', decide_eq_false_iff_not,
      beq_iff_eq] at hmissing
    exact hmissing.1 (hcount hmissing.2 trivial)
  rw [if_neg hfound]
  exact hreads

variable (heof : Symbol.token .eof ∉ Rules.symbols rules)

include heof

omit hfollows hreuse hsignificant in
theorem refuses_of_empty (hprecedes : slot.Precedes rules start after)
    (hslotted : slot.Accepts True Symbol.Labels branches)
    (hdue : Due session rules start levels branches after recovery rest state)
    (hempty : contentsOf branches = []) :
    ((Rules.analyse rules).ofSlot slot).first.admits (state.current session) = false := by
  have hallows := allows_slot hsettled hdue.derived hrule hslot hslotted
  have hfaces := hdue.faces
  rw [hempty, List.nil_append] at hfaces
  cases hrest : rest with
  | nil =>
      rw [hrest] at hfaces
      exact analyse_slot_avoids_eof heof (fun _ => Rules.mem_symbols hrule hslot)
        (hfaces.at_end hfinal)
  | cons content more =>
      rw [hrest] at hfaces
      rw [hfaces.admits]
      exact hsettled.apart hprecedes (hallows.nullable hempty) (hdue.awaits content more hrest).1

theorem reads_slot (hprecedes : slot.Precedes rules start after)
    (hslotted : slot.Accepts True Symbol.Labels branches)
    (hdue : Due session rules start levels branches after
      ((placeOf (Rules.analyse rules) slot behind).follow.union recovery) rest state) :
    Reads session (branches.map (·.tree)) rest state
      (Parse.slot enter session .actual (placeOf (Rules.analyse rules) slot behind) recovery
        state) := by
  have hrefuses := refuses_of_empty hsettled hfinal hrule hslot heof hprecedes hslotted hdue
  have hrepeated (hmultiplicity : slot.multiplicity.isRepeated = true) :=
    reads_repeated behind hfollows hsettled hreuse hfinal hsignificant hrule hslot hmultiplicity
      hslotted (fun content => hsettled.ended hprecedes hmultiplicity) hdue
  have hplace : (placeOf (Rules.analyse rules) slot behind).slot = slot := rfl
  unfold Parse.slot
  dsimp only
  rw [hplace]
  cases hmultiplicity : slot.multiplicity with
  | exactlyOne =>
      exact reads_required behind hfollows hsettled hreuse hrule hslot hmultiplicity hslotted
        hrefuses hdue
  | zeroOrOne =>
      exact reads_optional behind hfollows hsettled hreuse hfinal hrule hslot hmultiplicity
        hslotted hrefuses hdue
  | zeroOrMore => exact hrepeated (by rw [hmultiplicity]; rfl)
  | oneOrMore => exact hrepeated (by rw [hmultiplicity]; rfl)

omit hrule hslot in
theorem reads_slots {front slots : List Slot} {before symbols : List Symbol}
    (hrule : (kind, front ++ slots) ∈ rules)
    (hfront : Rule.Accepts True (· = ·) front symbols)
    (hslots : Rule.Accepts True Symbol.Labels slots branches)
    (hderives : Derives rules [.node start] (before ++ .node kind :: after))
    (hdue : Due session rules start levels branches after recovery rest state) :
    Reads session (branches.map (·.tree)) rest state
      ((placesOf (Rules.analyse rules) slots).foldl
        (fun state place => Parse.slot enter session .actual place recovery state) state) := by
  -- The slots in front of the next one and what they derived are kept, since they say where in a
  -- form it stands.
  induction hslots generalizing front symbols state with
  | nil => exact .nothing hdue.faces
  | @cons slot back items others hitems hothers ih =>
      have hslot : slot ∈ front ++ slot :: back := List.mem_append_right _ List.mem_cons_self
      have hsolid : Rule.Solid (Rules.analyse rules) back := fun other hother =>
        hsettled.solid _ hrule other (List.mem_append_right _ (List.mem_cons_of_mem _ hother))
      have hbehind := allows_slots hsettled (List.forall_mem_append.mp hdue.derived).2 hsolid
        hothers
      have hprecedes : slot.Precedes rules start (others.map (·.symbol) ++ after) :=
        .place hderives hrule hfront (Slot.symbols_of_labels hitems)
          (Rule.symbols_of_labels hothers)
      have hfirst := reads_slot back hfollows hsettled hreuse hfinal hsignificant hrule hslot heof
        hprecedes hitems (hdue.front (hdue.awaits_rest fun _ _ => hbehind.offers))
      rw [placesOf_cons, List.foldl_cons, List.map_append]
      have hnext : Rule.Accepts True (· = ·) (front ++ [slot])
          (symbols ++ (items.map (·.symbol) ++ [])) :=
        InOrder.append hfront (.cons (Slot.symbols_of_labels hitems) .nil)
      exact hfirst.append (ih (by simpa using hrule) hnext (hdue.back hfirst))

end

end Parse

end LosslessTree
