import LosslessTree.Proofs.Parse.Additions

/-!
Actual parsing fills each slot of a rule in turn. What a step adds, apart from error shapes,
conforms to the part of the rule that the step is for. As long as nothing has been reported,
nothing is missing from it.
-/

namespace LosslessTree

namespace Parse

open Grammar

variable {session : Session} {whole : Prop} {levels : Nat}

theorem State.current_of_ahead {state : State} (hahead : state.position < state.horizon) :
    state.current session = session.stream.tokenAt state.position := if_pos hahead

/-- Something other than the end stands in front, or the kind may be empty. -/
def Enterable (session : Session) (kind : NodeKind) (state : State) : Prop :=
  (state.current session).kind ≠ .eof ∨ session.grammar.Nullable kind

/-- What parsing the nodes below is known to do. -/
structure Enters (session : Session) (whole : Prop) (levels : Nat) (enter : Enter) : Prop where
  quiet {kind : NodeKind} : session.grammar.Mentions kind → ∀ recovery state,
    (enter .actual kind recovery state).lastReport = none → state.lastReport = none
  adds {kind : NodeKind} : session.grammar.Mentions kind → ∀ recovery {state},
    Enterable session kind state →
      (whole → (enter .actual kind recovery state).lastReport = none) →
        Adds session whole levels (Single session.stream (.node kind)) state
          (enter .actual kind recovery state)

variable {enter : Enter}

section

variable (hsound : session.grammar.Sound) (hfinal : session.stream.final.kind = .eof)
  (henter : Enters session whole levels enter)

include hsound hfinal henter

theorem adds_element {part : Part} (hpart : part ∈ session.grammar.parts) (recovery : Lookahead)
    {state : State}
    (hfit : part.first.admits (state.current session) = true ∨ part.nullable = true)
    (hwhole : whole → (element enter .actual part recovery state).lastReport = none) :
    Adds session whole levels (Single session.stream part.symbol) state
      (element enter .actual part recovery state) := by
  unfold element at hwhole ⊢
  split
  · next kind hsymbol =>
      obtain ⟨hfacts, hkind⟩ := hsound.token hpart hsymbol
      obtain ⟨hfirst, hnullable⟩ := Facts.mk.inj hfacts
      rw [hfirst, hnullable] at hfit
      have hcurrent : kind = (state.current session).kind := by simpa using hfit
      have hahead := State.ahead_of_current hfinal (hcurrent ▸ hkind)
      rw [State.current_of_ahead hahead] at hcurrent
      rw [hsymbol]
      exact .bump hahead hcurrent.symm
  · next text hsymbol =>
      obtain ⟨hfirst, hnullable⟩ := Facts.mk.inj (hsound.word hpart hsymbol)
      rw [hfirst, hnullable] at hfit
      have hcurrent : (state.current session).kind = .varId ∧
          (state.current session).text = text := by
        simpa [Lookahead.admits, Lookahead.ofWord] using hfit
      have hahead : state.position < state.horizon := by
        apply State.ahead_of_current hfinal
        rw [hcurrent.1]
        decide
      rw [State.current_of_ahead hahead] at hcurrent
      rw [hsymbol]
      exact .bump hahead hcurrent
  · next kind hsymbol =>
      rw [hsymbol] at hwhole ⊢
      refine henter.adds ⟨part, hpart, hsymbol⟩ recovery ?_ hwhole
      refine hfit.imp (fun hadmits heof => ?_) (hsound.node hpart hsymbol)
      rw [hsound.avoids hpart heof] at hadmits
      cases hadmits

variable (hreuse : session.reuse = false)

include hreuse

/-- A choice adds a match of one of its parts, or reports that none of them is there. -/
theorem adds_chooseOrReport {place : Place}
    (hparts : ∀ part ∈ place.parts, part ∈ session.grammar.parts) (recovery : Lookahead)
    (state : State)
    (hwhole : whole →
      (chooseOrReport enter session .actual place recovery state).lastReport = none) :
    Adds session whole levels
      (Pattern.Accepts whole (Symbol.FitsShape session.stream)
        (.choice (place.parts.map (·.symbol))))
      state (chooseOrReport enter session .actual place recovery state) := by
  unfold chooseOrReport at hwhole ⊢
  rcases choose_afresh hreuse enter .actual place.parts recovery state with
    heq | ⟨part, hpart, hfit, touched, heq⟩
  · rw [heq] at hwhole ⊢
    have hpart : ¬whole := fun h => missing_not_quiet _ _ _ (hwhole h)
    apply (Adds.look state).after_nothing
    exact (Adds.missing hpart _ place.first place.first.describe).imp
      fun items hnil => .inr ⟨hpart, hnil⟩
  · rw [heq] at hwhole ⊢
    have helement : Adds session whole levels (Single session.stream part.symbol) state
        (element enter .actual part recovery
          { state with touched := state.touched || touched }) :=
      adds_element hsound hfinal henter (hparts part hpart) recovery hfit hwhole
    exact helement.imp fun items hitems =>
      .inl ⟨part.symbol, List.mem_map_of_mem hpart, hitems⟩

theorem adds_chosen {place : Place}
    (hparts : ∀ part ∈ place.parts, part ∈ session.grammar.parts) (recovery : Lookahead)
    {state : State}
    (hoffers : ∃ part ∈ place.parts, part.first.admits (state.current session) = true)
    (hwhole : whole →
      (chooseOrReport enter session .actual place recovery state).lastReport = none) :
    Adds session whole levels
      (fun items => ∃ symbol ∈ place.parts.map (·.symbol), Single session.stream symbol items)
      state (chooseOrReport enter session .actual place recovery state) := by
  unfold chooseOrReport at hwhole ⊢
  rcases choose_cases hreuse enter .actual place.parts recovery state with
    ⟨part, hpart, hadmits, touched, heq⟩ | ⟨hnone, -⟩
  · rw [heq] at hwhole ⊢
    have helement : Adds session whole levels (Single session.stream part.symbol) state
        (element enter .actual part recovery
          { state with touched := state.touched || touched }) :=
      adds_element hsound hfinal henter (hparts part hpart) recovery (.inl hadmits) hwhole
    exact helement.imp fun items hitems => ⟨part.symbol, List.mem_map_of_mem hpart, hitems⟩
  · obtain ⟨part, hpart, hadmits⟩ := hoffers
    rw [hnone part hpart] at hadmits
    cases hadmits

omit hfinal hsound henter hreuse in
theorem adds_placeholder (hpart : ¬whole) {part : Part}
    (hrequired : ∀ kind, part.symbol = .node kind → session.grammar.Requires kind)
    (state : State) :
    Adds session whole levels (part.symbol.Accepts whole (Symbol.FitsShape session.stream)) state
      (placeholder .actual part state) := by
  have hmissing : Adds session whole levels (· = []) state
      (state.missing .actual part.first part.symbol.describe) := .missing hpart state _ _
  unfold placeholder
  dsimp only
  apply hmissing.after_nothing
  split
  · next kind hsymbol =>
      refine .one rfl (.inl ⟨_, ?_, rfl⟩) (.placeholder hpart (hrequired kind hsymbol))
      rw [hsymbol]
      rfl
  · next hsymbol => exact (Adds.nothing rfl).imp fun items hnil => .inr ⟨hpart, hsymbol, hnil⟩

omit hfinal hsound henter hreuse in
theorem placeholder_not_quiet (part : Part) (state : State) :
    (placeholder .actual part state).lastReport ≠ none := by
  have hmissing := missing_not_quiet state part.first part.symbol.describe
  unfold placeholder
  dsimp only
  split
  · exact hmissing
  · exact hmissing

omit hfinal hsound henter hreuse in
/-- A symbol that the token in front fits, or that may be empty, is parsed at once. -/
theorem expect_of_fit {mode : Mode} {part : Part} {state : State}
    (hfit : part.first.admits (state.current session) = true ∨ part.nullable = true)
    (follow : Lookahead) :
    expect enter session mode part follow state =
      element enter mode part follow (state.look session) := by
  rw [← State.current_look] at hfit
  exact if_pos (by simpa using hfit)

omit hreuse in
theorem adds_fitting {part : Part} (hpart : part ∈ session.grammar.parts) (follow : Lookahead)
    {state : State}
    (hfit : part.first.admits (state.current session) = true ∨ part.nullable = true)
    (hwhole : whole → (expect enter session .actual part follow state).lastReport = none) :
    Adds session whole levels (Single session.stream part.symbol) state
      (expect enter session .actual part follow state) := by
  rw [expect_of_fit hfit] at hwhole ⊢
  apply (Adds.look state).after_nothing
  exact adds_element hsound hfinal henter hpart follow (by rwa [State.current_look]) hwhole

omit hsound hfinal hreuse in
theorem fits_of_expect_quiet {part : Part} (hpart : part ∈ session.grammar.parts)
    (follow : Lookahead) (state : State)
    (hquiet : (expect enter session .actual part follow state).lastReport = none) :
    part.first.admits (state.current session) = true ∨ part.nullable = true := by
  have hrespected := respected_quiet session
  unfold expect at hquiet
  dsimp only at hquiet
  rw [State.current_look] at hquiet
  split at hquiet
  · next hfit => simpa using hfit
  · split at hquiet
    · exact absurd hquiet (placeholder_not_quiet part _)
    · split at hquiet
      · exact absurd (hrespected.look _ (hrespected.element henter.quiet hpart follow _ hquiet))
          (skip_not_quiet _ _ _)
      · exact absurd hquiet (placeholder_not_quiet part _)

omit hreuse in
theorem adds_expect {part : Part} (hpart : part ∈ session.grammar.parts)
    (hrequired : ∀ kind, part.symbol = .node kind → session.grammar.Requires kind)
    (follow : Lookahead) (state : State)
    (hwhole : whole → (expect enter session .actual part follow state).lastReport = none) :
    Adds session whole levels (part.symbol.Accepts whole (Symbol.FitsShape session.stream)) state
      (expect enter session .actual part follow state) := by
  have hquiet := respected_quiet session
  unfold expect at hwhole ⊢
  dsimp only at hwhole ⊢
  apply (Adds.look state).after_nothing
  split at hwhole
  · next hfit =>
      rw [if_pos hfit]
      exact (adds_element hsound hfinal henter hpart follow (by simpa using hfit) hwhole).imp
        fun _ => .inl
  · next hfit =>
      rw [if_neg hfit]
      split at hwhole
      · next hstop =>
          rw [if_pos hstop]
          exact adds_placeholder (fun h => placeholder_not_quiet part _ (hwhole h)) hrequired _
      · next hstop =>
          rw [if_neg hstop]
          split at hwhole
          · next hadmits =>
              have hskipped : ¬whole := fun h => skip_not_quiet _ _ _
                (hquiet.look _ (hquiet.element henter.quiet hpart follow _ (hwhole h)))
              rw [if_pos hadmits]
              refine .after_skip hskipped (part.first.union follow) .unexpected ?_
              exact (adds_element hsound hfinal henter hpart follow (.inl hadmits) hwhole).imp
                fun _ => .inl
          · next hadmits =>
              have hskipped : ¬whole := fun h => placeholder_not_quiet part _ (hwhole h)
              rw [if_neg hadmits]
              refine .after_skip hskipped (part.first.union follow) .unexpected ?_
              exact adds_placeholder hskipped hrequired _

omit hreuse in
theorem adds_expectAll {parts : List Part} (hparts : ∀ part ∈ parts, part ∈ session.grammar.parts)
    (hrequired : ∀ part ∈ parts, ∀ kind, part.symbol = .node kind → session.grammar.Requires kind)
    (follow : Lookahead) (state : State)
    (hwhole : whole → (expectAll enter session .actual parts follow state).lastReport = none) :
    Adds session whole levels
      (InOrder (Symbol.Accepts whole (Symbol.FitsShape session.stream)) (parts.map (·.symbol)))
      state (expectAll enter session .actual parts follow state) := by
  induction parts generalizing state with
  | nil => exact (Adds.nothing rfl).imp fun items hnil => hnil ▸ .nil
  | cons part rest ih =>
      obtain ⟨hpart, hrest⟩ := List.forall_mem_cons.mp hparts
      obtain ⟨hfirst, hothers⟩ := List.forall_mem_cons.mp hrequired
      have hquiet := (respected_quiet session).expectAll hfinal henter.quiet hrest follow
      have hexpect := adds_expect hsound hfinal henter hpart hfirst (part.follow.union follow) state
        fun h => hquiet _ (hwhole h)
      exact hexpect.append (ih hrest hothers _ hwhole) fun items more => .cons

variable {place : Place} (hplace : session.grammar.Has place)

include hplace

omit hreuse in
/-- A sequence that is entered at a token in front of it adds its first symbol at least. -/
theorem adds_sequence {symbols : List Symbol} (hpattern : place.slot.pattern = .sequence symbols)
    (follow : Lookahead) {state : State}
    (hadmits : place.first.admits (state.current session) = true)
    (hwhole : whole →
      (expectAll enter session .actual place.parts follow state).lastReport = none) :
    Adds session whole levels
      (fun items => place.slot.pattern.Accepts whole (Symbol.FitsShape session.stream) items ∧
        items ≠ [])
      state (expectAll enter session .actual place.parts follow state) := by
  obtain ⟨part, rest, hcons, hfit⟩ := hsound.enters hplace hpattern hadmits
  have hsymbols := hsound.symbols hplace
  rw [hpattern, hcons, List.map_cons, Pattern.symbols] at hsymbols
  have hparts := hplace.parts
  rw [hcons] at hparts hwhole ⊢
  obtain ⟨hpart, hrest⟩ := List.forall_mem_cons.mp hparts
  have hrequired : ∀ part ∈ rest, ∀ kind, part.symbol = .node kind →
      session.grammar.Requires kind := by
    intro part hmem kind hsymbol
    refine ⟨place, hplace, Slot.mem_required_of_tail hpattern ?_⟩
    rw [← hsymbols, ← hsymbol]
    exact List.mem_map_of_mem hmem
  have hquiet := (respected_quiet session).expectAll hfinal henter.quiet hrest follow
  have hfirst := adds_fitting hsound hfinal henter hpart (part.follow.union follow) hfit
    fun h => hquiet _ (hwhole h)
  have hothers := adds_expectAll hsound hfinal henter hrest hrequired follow _ hwhole
  apply hfirst.append hothers
  intro items more hitems hmore
  obtain ⟨item, hitem, heq⟩ := hitems
  subst heq
  refine ⟨?_, List.cons_ne_nil _ _⟩
  rw [hpattern, ← hsymbols]
  exact .cons (.inl ⟨item, hitem, rfl⟩) hmore

theorem adds_once (follow : Lookahead) {state : State}
    (hadmits : place.first.admits (state.current session) = true)
    (hwhole : whole → (once enter session .actual place follow state).lastReport = none) :
    Adds session whole levels
      (fun items => place.slot.pattern.Accepts whole (Symbol.FitsShape session.stream) items ∧
        items ≠ [])
      state (once enter session .actual place follow state) := by
  unfold once at hwhole ⊢
  split
  · next hpattern =>
      simp only [hpattern] at hwhole
      exact adds_sequence hsound hfinal henter hplace hpattern follow hadmits hwhole
  · next hpattern =>
      simp only [hpattern] at hwhole
      have hoffers := hsound.offers hplace hpattern hadmits
      have hchosen := adds_chosen hsound hfinal henter hreuse hplace.parts follow hoffers hwhole
      rw [hsound.symbols hplace, hpattern] at hchosen
      apply hchosen.imp
      intro items hitems
      obtain ⟨symbol, hsymbol, item, hitem, heq⟩ := hitems
      subst heq
      rw [hpattern]
      exact ⟨.inl ⟨symbol, hsymbol, item, hitem, rfl⟩, List.cons_ne_nil _ _⟩

theorem adds_required (hone : place.slot.multiplicity = .exactlyOne) (follow : Lookahead)
    (state : State)
    (hwhole : whole → (required enter session .actual place follow state).lastReport = none) :
    Adds session whole levels
      (place.slot.pattern.Accepts whole (Symbol.FitsShape session.stream)) state
      (required enter session .actual place follow state) := by
  have hparts := hplace.parts
  have hsymbols := hsound.symbols hplace
  unfold required at hwhole ⊢
  split
  · next symbols hpattern =>
      simp only [hpattern] at hwhole
      rw [hpattern, Pattern.symbols] at hsymbols
      have hrequired : ∀ part ∈ place.parts, ∀ kind, part.symbol = .node kind →
          session.grammar.Requires kind := by
        intro part hmem kind hsymbol
        refine ⟨place, hplace, ?_⟩
        rw [Slot.required_of_exactlyOne hpattern hone, ← hsymbol]
        exact hsymbols ▸ List.mem_map_of_mem hmem
      have hexpect := adds_expectAll hsound hfinal henter hparts hrequired follow state hwhole
      rw [hsymbols] at hexpect
      rwa [hpattern]
  · next symbols hpattern =>
      simp only [hpattern] at hwhole
      rw [hpattern, Pattern.symbols] at hsymbols
      rw [hpattern]
      have hchoose (state : State) (hwhole : whole →
          (chooseOrReport enter session .actual place follow state).lastReport = none) :
          Adds session whole levels
            (Pattern.Accepts whole (Symbol.FitsShape session.stream) (.choice symbols)) state
            (chooseOrReport enter session .actual place follow state) := by
        have hadds := adds_chooseOrReport hsound hfinal henter hreuse hparts follow state hwhole
        rwa [hsymbols] at hadds
      apply (Adds.look state).after_nothing
      dsimp only
      split at hwhole
      · next hstop =>
          rw [if_pos hstop]
          exact hchoose _ hwhole
      · next hstop =>
          have hquiet := (respected_quiet session).chooseOrReport hreuse henter.quiet hparts follow
          have hpart : ¬whole := fun h => skip_not_quiet _ _ _ (hquiet _ (hwhole h))
          rw [if_neg hstop]
          apply (Adds.skip hpart _ (place.first.union follow) .unexpected).after_nothing
          exact hchoose _ hwhole

theorem adds_optional (follow : Lookahead) (state : State)
    (hwhole : whole → (optional enter session .actual place follow state).lastReport = none) :
    Adds session whole levels
      (fun items => items = [] ∨
        place.slot.pattern.Accepts whole (Symbol.FitsShape session.stream) items)
      state (optional enter session .actual place follow state) := by
  have hquiet := respected_quiet session
  unfold optional at hwhole ⊢
  dsimp only at hwhole ⊢
  apply (Adds.look state).after_nothing
  split at hwhole
  · next hadmits =>
      rw [if_pos hadmits]
      exact (adds_once hsound hfinal henter hreuse hplace follow hadmits hwhole).imp
        fun _ hitems => .inr hitems.1
  · next hadmits =>
      rw [if_neg hadmits]
      split at hwhole
      · next hstop =>
          rw [if_pos hstop]
          exact (Adds.nothing rfl).imp fun _ => .inl
      · next hstop =>
          rw [if_neg hstop]
          split at hwhole
          · next hadmits =>
              have honce := hquiet.once hfinal hreuse henter.quiet hplace.parts follow
              have hpart : ¬whole := fun h =>
                skip_not_quiet _ _ _ (hquiet.look _ (honce _ (hwhole h)))
              rw [if_pos hadmits]
              refine .after_skip hpart (place.first.union follow) .unexpected ?_
              exact (adds_once hsound hfinal henter hreuse hplace follow hadmits hwhole).imp
                fun _ hitems => .inr hitems.1
          · next hadmits =>
              have hpart : ¬whole := fun h => skip_not_quiet _ _ _ (hquiet.look _ (hwhole h))
              rw [if_neg hadmits]
              refine .after_skip hpart (place.first.union follow) .unexpected ?_
              exact (Adds.nothing rfl).imp fun _ => .inl

/-- Every round of a repetition adds a match where one may begin, or a separator behind one. -/
theorem adds_matchAll (follow recovery : Lookahead) (rounds : Nat) (expecting found : Bool)
    (state : State)
    (hwhole : whole → (matchAll enter session .actual place follow recovery rounds expecting found
      state).1.lastReport = none) :
    Adds session whole levels
      (fun items => ∃ count,
        place.slot.Alternates whole (Symbol.FitsShape session.stream) expecting count items ∧
        ((matchAll enter session .actual place follow recovery rounds expecting found state).2 =
          true → found = true ∨ 0 < count))
      state
      (matchAll enter session .actual place follow recovery rounds expecting found state).1 := by
  have hquiet := respected_quiet session
  -- A round that goes on puts its match or separator in front of what the later rounds add.
  induction rounds generalizing expecting found state with
  | zero => exact (Adds.nothing rfl).imp fun items hnil => ⟨0, hnil ▸ .stop expecting, .inl⟩
  | succ rounds ih =>
      have hrest := hquiet.matchAll hfinal hreuse henter.quiet hplace.parts follow recovery rounds
      unfold matchAll at hwhole ⊢
      dsimp only at hwhole ⊢
      apply (Adds.look state).after_nothing
      split at hwhole
      · next heof =>
          rw [if_pos heof]
          exact (Adds.nothing rfl).imp fun items hnil => ⟨0, hnil ▸ .stop expecting, .inl⟩
      · next heof =>
          rw [if_neg heof]
          split at hwhole
          · next hseparator =>
              rw [if_pos hseparator]
              simp only [Bool.and_eq_true, beq_iff_eq, Bool.not_eq_true'] at hseparator
              obtain ⟨hseparator, hexpecting⟩ := hseparator
              subst hexpecting
              have hahead := State.ahead_of_current hfinal (by simpa using heof)
              have hbump : Adds session whole levels (Single session.stream (.token _))
                  (state.look session) (state.look session).bump :=
                .bump hahead (congrArg Token.kind (State.current_of_ahead hahead).symm)
              apply hbump.append (ih true found _ hwhole)
              intro items more hitems hmore
              obtain ⟨item, hitem, heq⟩ := hitems
              obtain ⟨count, halternates, hfound⟩ := hmore
              subst heq
              exact ⟨count, .separator hseparator hitem halternates, hfound⟩
          · next hseparator =>
              rw [if_neg hseparator]
              split at hwhole
              · next hadmits =>
                  rw [if_pos hadmits]
                  simp only [Bool.and_eq_true] at hadmits
                  obtain ⟨hadmits, hexpecting⟩ := hadmits
                  subst hexpecting
                  have honce := adds_once hsound hfinal henter hreuse hplace recovery hadmits
                  split at hwhole
                  · next hstill =>
                      rw [if_pos hstill]
                      apply (honce hwhole).imp
                      intro items hitems
                      refine ⟨1, ?_, fun _ => .inr Nat.one_pos⟩
                      rw [← List.append_nil items]
                      exact .item hitems.1 hitems.2 (.stop _)
                  · next hstill =>
                      rw [if_neg hstill]
                      apply (honce fun h => hrest _ _ _ (hwhole h)).append (ih _ true _ hwhole)
                      intro items more hitems hmore
                      obtain ⟨count, halternates, -⟩ := hmore
                      exact ⟨count + 1, .item hitems.1 hitems.2 halternates,
                        fun _ => .inr (Nat.succ_pos count)⟩
              · next hadmits =>
                  rw [if_neg hadmits]
                  split at hwhole
                  · next hfollow =>
                      rw [if_pos hfollow]
                      exact (Adds.nothing rfl).imp fun items hnil =>
                        ⟨0, hnil ▸ .stop expecting, .inl⟩
                  · next hfollow =>
                      rw [if_neg hfollow]
                      have hpart : ¬whole := fun h =>
                        skip_not_quiet _ _ _ (hrest _ _ _ (hwhole h))
                      exact (Adds.skip hpart _ recovery .unexpected).after_nothing
                        (ih _ _ _ hwhole)

theorem adds_repeated (follow : Lookahead) (state : State)
    (hwhole : whole → (repeated enter session .actual place follow state).lastReport = none) :
    Adds session whole levels
      (fun items => ∃ count, (place.slot.multiplicity = .oneOrMore → whole → 0 < count) ∧
        place.slot.Alternates whole (Symbol.FitsShape session.stream) true count items)
      state (repeated enter session .actual place follow state) := by
  have hmatch := adds_matchAll hsound hfinal henter hreuse hplace follow
    (recoveryOf place follow) (session.stream.size - state.position + 1) true false state
  unfold repeated at hwhole ⊢
  dsimp only at hwhole ⊢
  split at hwhole
  · next hmissing =>
      rw [if_pos hmissing]
      have hpart : ¬whole := fun h => missing_not_quiet _ _ _ (hwhole h)
      have hadds := (hmatch fun h => absurd h hpart).then_nothing
        (Adds.missing hpart _ place.first place.first.describe)
      apply hadds.imp
      intro items hitems
      obtain ⟨count, halternates, -⟩ := hitems
      exact ⟨count, fun _ h => absurd h hpart, halternates⟩
  · next hmissing =>
      rw [if_neg hmissing]
      apply (hmatch hwhole).imp
      intro items hitems
      obtain ⟨count, halternates, hfound⟩ := hitems
      refine ⟨count, fun hmultiplicity _ => ?_, halternates⟩
      rw [hmultiplicity] at hmissing
      exact (hfound (by simpa using hmissing)).resolve_left Bool.false_ne_true

theorem adds_slot (recovery : Lookahead) (state : State)
    (hwhole : whole → (slot enter session .actual place recovery state).lastReport = none) :
    Adds session whole levels (place.slot.Fills whole (Symbol.FitsShape session.stream)) state
      (slot enter session .actual place recovery state) := by
  unfold slot at hwhole ⊢
  dsimp only at hwhole ⊢
  unfold Slot.Fills
  cases hmultiplicity : place.slot.multiplicity with
  | exactlyOne =>
      simp only [hmultiplicity] at hwhole
      exact adds_required hsound hfinal henter hreuse hplace hmultiplicity _ state hwhole
  | zeroOrOne =>
      simp only [hmultiplicity] at hwhole
      exact adds_optional hsound hfinal henter hreuse hplace _ state hwhole
  | zeroOrMore =>
      simp only [hmultiplicity] at hwhole
      apply (adds_repeated hsound hfinal henter hreuse hplace _ state hwhole).imp
      exact fun items => Exists.imp fun count => And.right
  | oneOrMore =>
      simp only [hmultiplicity] at hwhole
      apply (adds_repeated hsound hfinal henter hreuse hplace _ state hwhole).imp
      exact fun items => Exists.imp fun count => And.imp_left (· hmultiplicity)

omit hplace

theorem adds_slots {places : List Place}
    (hplaces : ∀ place ∈ places, session.grammar.Has place)
    (recovery : Lookahead) (state : State)
    (hwhole : whole → (places.foldl (fun state place =>
      slot enter session .actual place recovery state) state).lastReport = none) :
    Adds session whole levels
      (Rule.Fills whole (Symbol.FitsShape session.stream) (places.map (·.slot))) state
      (places.foldl (fun state place =>
        slot enter session .actual place recovery state) state) := by
  induction places generalizing state with
  | nil => exact (Adds.nothing rfl).imp fun items hnil => hnil ▸ .nil
  | cons place rest ih =>
      obtain ⟨hplace, hrest⟩ := List.forall_mem_cons.mp hplaces
      have hquiet := (respected_quiet session).slots hfinal hreuse henter.quiet
        (fun _ hmem => (hrest _ hmem).parts) recovery
      have hslot := adds_slot hsound hfinal henter hreuse hplace recovery state
        fun h => hquiet _ (hwhole h)
      exact hslot.append (ih hrest _ hwhole) fun items more => .cons

/-- What parsing the rule for a kind adds fills the rule. -/
theorem adds_body {kind : NodeKind} {production : Production}
    (hproduction : session.grammar.production? kind = some production) (recovery : Lookahead)
    (state : State)
    (hwhole : whole → (body enter session .actual kind recovery state).lastReport = none) :
    Adds session whole levels
      (Rule.Fills whole (Symbol.FitsShape session.stream) production.rule) state
      (body enter session .actual kind recovery state) := by
  simp only [body, hproduction] at hwhole ⊢
  exact adds_slots hsound hfinal henter hreuse
    (fun _ hplace => ⟨kind, production, hproduction, hplace⟩) recovery state hwhole

end

/-- At the depth limit a node is left empty at the end of the text, where only a kind that may be
empty is entered. -/
theorem conforms_cut {kind : NodeKind} {state : State} (henterable : Enterable session kind state)
    (hwhole : whole → (cut session .actual { state with built := [] }).lastReport = none) :
    Conforms session whole 0 (.node kind state.position
      (cut session .actual { state with built := [] }).built.reverse) := by
  have hlook := State.look_eq session { state with built := [] }
  unfold cut at hwhole ⊢
  dsimp only at hwhole ⊢
  split at hwhole
  · next hend =>
      have hcurrent : ({ state with built := [] }.current session).kind = .eof := by
        rw [State.atEnd, State.current_look] at hend
        simpa using hend
      rw [if_pos hend, hlook]
      exact .empty fun _ => henterable.resolve_left (absurd hcurrent)
  · next hend =>
      rw [if_neg hend, hlook]
      exact .cut fun h => skip_not_quiet _ _ _ (hwhole h)

section

variable (hsound : session.grammar.Sound) (hfinal : session.stream.final.kind = .eof)

include hsound hfinal

theorem enters_node (hreuse : session.reuse = false) (levels : Nat) :
    Enters session whole levels (node session levels) where
  quiet := (respected_quiet session).node hfinal hreuse levels
  adds {kind} hkind recovery {state} henterable hwhole := by
    induction levels generalizing kind recovery state with
    | zero => exact .nest (conforms_cut henterable hwhole)
    | succ levels ih =>
        obtain ⟨production, hproduction⟩ := hsound.closed hkind
        have henter : Enters session whole levels (node session levels) :=
          ⟨(respected_quiet session).node hfinal hreuse levels, ih⟩
        obtain ⟨added, hbuilt, haccepts, hconforms⟩ :=
          adds_body hsound hfinal henter hreuse hproduction recovery { state with built := [] }
            hwhole
        refine .nest ?_
        rw [hbuilt, List.append_nil, List.reverse_reverse]
        exact .node hproduction haccepts hconforms

theorem adds_run (hreuse : session.reuse = false) {start : NodeKind} {production : Production}
    (hproduction : session.grammar.production? start = some production)
    (hwhole : whole → (run session start).lastReport = none) :
    Adds session whole depthLimit
      (Rule.Fills whole (Symbol.FitsShape session.stream) production.rule)
      (.initial session) (run session start) := by
  have hrespected := respected_quiet session
  have henter : Enters session whole depthLimit (node session depthLimit) :=
    enters_node hsound hfinal hreuse depthLimit
  have hbody := adds_body hsound hfinal henter hreuse hproduction (.ofKind .eof)
    (.initial session)
  unfold run at hwhole ⊢
  dsimp only at hwhole ⊢
  split at hwhole
  · next hend =>
      rw [if_pos hend]
      exact (hbody fun h => hrespected.look _ (hwhole h)).then_nothing (Adds.look _)
  · next hend =>
      have hpart : ¬whole := fun h => skip_not_quiet _ _ _ (hwhole h)
      rw [if_neg hend]
      apply (hbody fun h => absurd h hpart).then_nothing
      exact (Adds.look _).after_nothing (Adds.skip hpart _ (.ofKind .eof) .unexpected)

end

end Parse

end LosslessTree
