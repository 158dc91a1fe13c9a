import LosslessTree.Proofs.Grammar.Exactness

/-!
Building a grammar from registered rules. It fails where a kind is registered twice, or else where
a kind is mentioned without a rule; all other rules give a grammar whose productions hold exactly
what the rules say, in whatever order the rules were registered.
-/

namespace LosslessTree

namespace Grammar

variable {rules other order : Rules} {kind : NodeKind} {rule : Rule}

/-! ## Failures -/

theorem mem_seen_of_firstDuplicate? {seen kinds : List NodeKind}
    (hfound : firstDuplicate? seen kinds = some kind) :
    kind ∈ kinds ∧ (kind ∈ seen ∨ 2 ≤ kinds.count kind) := by
  induction kinds generalizing seen with
  | nil => cases hfound
  | cons head rest ih =>
      unfold firstDuplicate? at hfound
      split at hfound
      · next hseen =>
          obtain rfl := Option.some.inj hfound
          exact ⟨List.mem_cons_self, .inl hseen⟩
      · obtain ⟨hmem, hcases⟩ := ih hfound
        refine ⟨List.mem_cons_of_mem _ hmem, ?_⟩
        have hpositive := List.count_pos_iff.mpr hmem
        rcases hcases with hseen | htwice
        · rcases List.mem_cons.mp hseen with rfl | hseen
          · right
            rw [List.count_cons_self]
            exact Nat.succ_le_succ hpositive
          · exact .inl hseen
        · exact .inr (Nat.le_trans htwice (List.count_le_count_cons))

theorem exists_firstDuplicate?_iff :
    (∃ kind, firstDuplicate? [] (rules.map (·.1)) = some kind) ↔ ¬(rules.map (·.1)).Nodup := by
  constructor
  · rintro ⟨kind, hfound⟩ hnodup
    rcases (mem_seen_of_firstDuplicate? hfound).2 with hseen | htwice
    · cases hseen
    · exact absurd (List.nodup_iff_count_le_one.mp hnodup kind) (Nat.not_le.mpr htwice)
  · intro hrepeated
    cases hfound : firstDuplicate? [] (rules.map (·.1)) with
    | none => exact absurd (nodup_of_firstDuplicate? hfound).1 hrepeated
    | some kind => exact ⟨kind, rfl⟩

def Rules.Lacks (rules : Rules) (kind : NodeKind) : Prop :=
  Symbol.node kind ∈ Rules.symbols rules ∧ kind ∉ rules.map (·.1)

theorem isMissing_eq_some_iff {symbol : Symbol} :
    symbol.isMissing rules = some kind ↔ symbol = .node kind ∧ kind ∉ rules.map (·.1) := by
  cases symbol with
  | token kind => simp [Symbol.isMissing]
  | word text => simp [Symbol.isMissing]
  | node other =>
      by_cases hkind : other ∈ rules.map (·.1)
      · rw [Symbol.isMissing, if_pos hkind]
        constructor
        · intro heq
          cases heq
        · rintro ⟨heq, hmissing⟩
          cases heq
          exact absurd hkind hmissing
      · rw [Symbol.isMissing, if_neg hkind]
        constructor
        · rintro ⟨⟩
          exact ⟨rfl, hkind⟩
        · rintro ⟨heq, -⟩
          cases heq
          rfl

theorem lacks_of_firstMissing? (hfound : firstMissing? rules = some kind) :
    Rules.Lacks rules kind := by
  obtain ⟨symbol, hsymbol, hmissing⟩ := List.exists_of_findSome?_eq_some hfound
  obtain ⟨rfl, hkind⟩ := isMissing_eq_some_iff.mp hmissing
  exact ⟨hsymbol, hkind⟩

theorem exists_firstMissing?_iff :
    (∃ kind, firstMissing? rules = some kind) ↔ ∃ kind, Rules.Lacks rules kind := by
  constructor
  · rintro ⟨kind, hfound⟩
    exact ⟨kind, lacks_of_firstMissing? hfound⟩
  · rintro ⟨kind, hsymbol, hkind⟩
    rw [← Option.isSome_iff_exists, firstMissing?, List.findSome?_isSome_iff]
    exact ⟨_, hsymbol, by rw [isMissing_eq_some_iff.mpr ⟨rfl, hkind⟩]; rfl⟩

/-- Rules with one rule for each kind and none missing. -/
structure Rules.Closed (rules : Rules) : Prop where
  nodup : (rules.map (·.1)).Nodup
  complete : ∀ kind, ¬Rules.Lacks rules kind

theorem build_of_closed (hclosed : Rules.Closed rules) : build rules = .ok (compile rules) := by
  have hduplicate : firstDuplicate? [] (rules.map (·.1)) = none := by
    rw [Option.eq_none_iff_forall_ne_some]
    exact fun kind hfound => exists_firstDuplicate?_iff.mp ⟨kind, hfound⟩ hclosed.nodup
  have hmissing : firstMissing? rules = none := by
    rw [Option.eq_none_iff_forall_ne_some]
    exact fun kind hfound => hclosed.complete kind (lacks_of_firstMissing? hfound)
  rw [build, hduplicate, hmissing]

/-! ## The order of registration -/

theorem Rules.Closed.perm (hclosed : Rules.Closed rules) (horder : order.Perm rules) :
    Rules.Closed order where
  nodup := (horder.map _).nodup_iff.mpr hclosed.nodup
  complete kind hlacks := by
    refine hclosed.complete kind ⟨?_, fun hkind => ?_⟩
    · exact (horder.flatMap_right _).subset hlacks.1
    · exact hlacks.2 ((horder.map _).symm.subset hkind)

mutual

theorem Rules.Nullable.of_subset (hsubset : rules ⊆ other) {symbol : Symbol} :
    Rules.Nullable rules symbol → Rules.Nullable other symbol
  | .node hrule hslots => .node (hsubset hrule) fun slot hslot =>
      Rules.NullableSlot.of_subset hsubset (hslots slot hslot)

theorem Rules.NullableSlot.of_subset (hsubset : rules ⊆ other) {slot : Slot} :
    Rules.NullableSlot rules slot → Rules.NullableSlot other slot
  | .zero hzero => .zero hzero
  | .sequence hpattern hsymbols => .sequence hpattern fun symbol hsymbol =>
      Rules.Nullable.of_subset hsubset (hsymbols symbol hsymbol)
  | .choice hpattern hsymbol hnullable =>
      .choice hpattern hsymbol (Rules.Nullable.of_subset hsubset hnullable)

end

theorem Rules.Starts.of_subset (hsubset : rules ⊆ other) {symbol first : Symbol}
    (hstarts : Rules.Starts rules symbol first) : Rules.Starts other symbol first := by
  induction hstarts with
  | token kind => exact .token kind
  | word text => exact .word text
  | node hrule hopens _ ih =>
      exact .node (hsubset hrule) (hopens.mono fun _ => Rules.Nullable.of_subset hsubset) ih

section

variable (horder : order.Perm rules)

include horder

theorem Rules.nullable_perm {symbol : Symbol} :
    Rules.Nullable order symbol ↔ Rules.Nullable rules symbol :=
  ⟨.of_subset horder.subset, .of_subset horder.symm.subset⟩

theorem Rules.nullableSlot_perm {slot : Slot} :
    Rules.NullableSlot order slot ↔ Rules.NullableSlot rules slot :=
  ⟨.of_subset horder.subset, .of_subset horder.symm.subset⟩

theorem Rules.starts_perm {symbol first : Symbol} :
    Rules.Starts order symbol first ↔ Rules.Starts rules symbol first :=
  ⟨.of_subset horder.subset, .of_subset horder.symm.subset⟩

end

/-! ## Places and parts -/

/-- What an entry is made of, in a list that holds for each item what it is with those behind. -/
theorem exists_of_spread {α β : Type} {spread : List α → List β} {make : α → List α → β}
    (hnil : spread [] = []) (hcons : ∀ item rest, spread (item :: rest) = make item rest ::
      spread rest) {items : List α} {before later : List β} {entry : β}
    (heq : spread items = before ++ entry :: later) :
    ∃ item rest, entry = make item rest ∧ later = spread rest := by
  induction items generalizing before with
  | nil =>
      rw [hnil] at heq
      simp at heq
  | cons item rest ih =>
      rw [hcons] at heq
      cases before with
      | nil =>
          obtain ⟨hentry, hlater⟩ := List.cons.inj heq
          exact ⟨item, rest, hentry.symm, hlater.symm⟩
      | cons _ before => exact ih (List.cons.inj heq).2

variable {table : FactTable} {first : Symbol}

theorem placesOf_facts (table : FactTable) (rule : Rule) :
    (placesOf table rule).map Place.facts = rule.map table.ofSlot := by
  induction rule with
  | nil => rfl
  | cons slot rest ih =>
      rw [placesOf_cons, List.map_cons, List.map_cons, ih]
      rfl

theorem partsOfSequence_facts (table : FactTable) (symbols : List Symbol) :
    (partsOfSequence table symbols).map Part.facts = symbols.map table.ofSymbol := by
  induction symbols with
  | nil => rfl
  | cons symbol rest ih =>
      rw [partsOfSequence_cons, List.map_cons, List.map_cons, ih]
      rfl

/-- A symbol of a sequence: what it may start with, and what the symbols behind it start with up to
the first that may not be empty. -/
structure Part.Exact (rules : Rules) (later : List Part) (part : Part) : Prop where
  nullable : part.nullable = true ↔ Rules.Nullable rules part.symbol
  first (start : Symbol) : part.first.Has start ↔ Rules.Starts rules part.symbol start
  follow (start : Symbol) : part.follow.Has start ↔
    ∃ next, AtFront (·.nullable = true) later next ∧ next.first.Has start

structure Place.Exact (rules : Rules) (later : List Place) (place : Place) : Prop where
  nullable : place.nullable = true ↔ Rules.NullableSlot rules place.slot
  first (start : Symbol) : place.first.Has start ↔
    ∃ symbol, place.slot.pattern.Opens (Rules.Nullable rules) symbol ∧
      Rules.Starts rules symbol start
  follow (start : Symbol) : place.follow.Has start ↔
    ∃ next, AtFront (·.nullable = true) later next ∧ next.first.Has start
  symbols : place.parts.map (·.symbol) = place.slot.pattern.symbols
  parts {symbols : List Symbol} {before later : List Part} {part : Part} :
    place.slot.pattern = .sequence symbols → place.parts = before ++ part :: later →
      part.Exact rules later

structure Production.Exact (rules : Rules) (rule : Rule) (production : Production) : Prop where
  nullable : production.nullable = true ↔ Rules.Nullable rules (.node production.kind)
  first (start : Symbol) : production.first.Has start ↔
    Rules.Starts rules (.node production.kind) start
  slots : production.places.map (·.slot) = rule
  places {before later : List Place} {place : Place} :
    production.places = before ++ place :: later → place.Exact rules later

theorem partOf_exact (rules : Rules) (symbol : Symbol) (rest : List Symbol) :
    (partOf (Rules.analyse rules)
        (Facts.ofSequence (rest.map (Rules.analyse rules).ofSymbol)).first symbol).Exact rules
      (partsOfSequence (Rules.analyse rules) rest) where
  nullable := nullable_analyse_iff
  first _ := has_analyse_iff
  follow _ := by
    rw [partOf, ← partsOfSequence_facts, Facts.has_ofSequence]
    rfl

theorem placeOf_exact (rules : Rules) (slot : Slot) (rest : Rule) :
    (placeOf (Rules.analyse rules) slot rest).Exact rules
      (placesOf (Rules.analyse rules) rest) where
  nullable := nullable_analyse_slot_iff
  first _ := has_analyse_slot_iff
  follow _ := by
    rw [placeOf, ← placesOf_facts, Facts.has_ofSequence]
    rfl
  symbols := partsOf_symbols slot.pattern
  parts {symbols before later part} hpattern hparts := by
    have hparts : partsOfSequence (Rules.analyse rules) symbols = before ++ part :: later := by
      rw [← hparts, placeOf]
      change slot.pattern = _ at hpattern
      rw [hpattern]
      rfl
    obtain ⟨symbol, rest, rfl, rfl⟩ :=
      exists_of_spread rfl (partsOfSequence_cons (Rules.analyse rules)) hparts
    exact partOf_exact rules symbol rest

theorem productionOf_exact (rules : Rules) (kind : NodeKind) (rule : Rule) :
    (productionOf (Rules.analyse rules) kind rule).Exact rules rule where
  nullable := by
    have hiff : ((Rules.analyse rules).ofSymbol (.node kind)).nullable = true ↔ _ :=
      nullable_analyse_iff
    exact hiff
  first start := by
    have hiff : ((Rules.analyse rules).ofSymbol (.node kind)).first.Has start ↔ _ :=
      has_analyse_iff
    exact hiff
  slots := placesOf_slots _ rule
  places hplaces := by
    obtain ⟨slot, rest, rfl, rfl⟩ :=
      exists_of_spread rfl (placesOf_cons (Rules.analyse rules)) hplaces
    exact placeOf_exact rules slot rest

section

variable (horder : order.Perm rules)

include horder

theorem Part.Exact.perm {later : List Part} {part : Part} (hexact : part.Exact order later) :
    part.Exact rules later where
  nullable := hexact.nullable.trans (Rules.nullable_perm horder)
  first start := (hexact.first start).trans (Rules.starts_perm horder)
  follow := hexact.follow

theorem Place.Exact.perm {later : List Place} {place : Place}
    (hexact : place.Exact order later) : place.Exact rules later where
  nullable := hexact.nullable.trans (Rules.nullableSlot_perm horder)
  first start := by
    rw [hexact.first start]
    refine exists_congr fun symbol => and_congr ⟨?_, ?_⟩ (Rules.starts_perm horder)
    · exact Pattern.Opens.mono fun _ => (Rules.nullable_perm horder).mp
    · exact Pattern.Opens.mono fun _ => (Rules.nullable_perm horder).mpr
  follow := hexact.follow
  symbols := hexact.symbols
  parts hpattern hparts := (hexact.parts hpattern hparts).perm horder

theorem Production.Exact.perm {production : Production}
    (hexact : production.Exact order rule) : production.Exact rules rule where
  nullable := hexact.nullable.trans (Rules.nullable_perm horder)
  first start := (hexact.first start).trans (Rules.starts_perm horder)
  slots := hexact.slots
  places hplaces := (hexact.places hplaces).perm horder

end

/-! ## All registrations -/

theorem build_eq_duplicateRule_iff : build rules = .error (.duplicateRule kind) ↔
    firstDuplicate? [] (rules.map (·.1)) = some kind := by
  unfold build
  cases firstDuplicate? [] (rules.map (·.1)) with
  | some found => simp
  | none => cases firstMissing? rules <;> simp

theorem build_eq_unknownKind_iff : build rules = .error (.unknownKind kind) ↔
    firstDuplicate? [] (rules.map (·.1)) = none ∧ firstMissing? rules = some kind := by
  unfold build
  cases firstDuplicate? [] (rules.map (·.1)) with
  | some found => simp
  | none => cases firstMissing? rules <;> simp

theorem build_error {error : Error} (hbuild : build rules = .error error) :
    (∃ kind, error = .duplicateRule kind ∧ 2 ≤ (rules.map (·.1)).count kind) ∨
      ∃ kind, error = .unknownKind kind ∧ Rules.Lacks rules kind := by
  unfold build at hbuild
  split at hbuild
  · next kind hfound =>
      cases hbuild
      exact .inl ⟨kind, rfl, (mem_seen_of_firstDuplicate? hfound).2.resolve_left List.not_mem_nil⟩
  · split at hbuild
    · next kind hfound =>
        cases hbuild
        exact .inr ⟨kind, rfl, lacks_of_firstMissing? hfound⟩
    · cases hbuild

/-- Building fails for a kind that is registered twice, and only then, or else for one that is
mentioned and not registered, and only then; the error names such a kind. In whatever order the
rules are registered otherwise, the rounds of the analysis come to an end, and each kind has a
production that holds exactly what the rules say. -/
theorem build_exact (rules : Rules) :
    ((∃ kind, build rules = .error (.duplicateRule kind)) ↔ ¬(rules.map (·.1)).Nodup) ∧
      ((∃ kind, build rules = .error (.unknownKind kind)) ↔
        (rules.map (·.1)).Nodup ∧ ∃ kind, Rules.Lacks rules kind) ∧
      (∀ error, build rules = .error error →
        (∃ kind, error = .duplicateRule kind ∧ 2 ≤ (rules.map (·.1)).count kind) ∨
          ∃ kind, error = .unknownKind kind ∧ Rules.Lacks rules kind) ∧
      (Rules.Closed rules → ∀ order : Rules, order.Perm rules →
        FactTable.Settles order (order.map fun entry => (entry.1, .none)) (Rules.analyse order) ∧
          ∃ grammar, build order = .ok grammar ∧
            grammar.productions.map (·.kind) = order.map (·.1) ∧
            ∀ kind rule, (kind, rule) ∈ rules → ∃ production,
              grammar.production? kind = some production ∧ production.kind = kind ∧
                production.Exact rules rule) := by
  refine ⟨?_, ?_, fun error => build_error, fun hclosed order horder => ?_⟩
  · simp only [build_eq_duplicateRule_iff, exists_firstDuplicate?_iff]
  · simp only [build_eq_unknownKind_iff, exists_and_left, exists_firstMissing?_iff]
    refine and_congr_left fun _ => ?_
    rw [← not_iff_not, ← exists_firstDuplicate?_iff, ← Option.isSome_iff_exists,
      Option.isSome_iff_ne_none]
  · have horderClosed := hclosed.perm horder
    have hbuild := build_of_closed horderClosed
    refine ⟨Rules.settles_analyse horderClosed.nodup, compile order, hbuild, ?_, ?_⟩
    · rw [compile, List.map_map]
      rfl
    · intro kind rule hrule
      exact ⟨_, production?_of_rule hbuild (horder.symm.subset hrule), rfl,
        (productionOf_exact order kind rule).perm horder⟩

/-- Three kinds, each with the next at its front and the last with the first. -/
def loopedRules : Rules := [
  (.extension 0, [.all [.node (.extension 1), .token .comma]]),
  (.extension 1, [.allOrNone [.word "as"], .oneOf [.token .semi, .node (.extension 2)]]),
  (.extension 2, [.many [.node (.extension 0)]])]

/-- What the first kind starts with where the rules are registered backwards: a word of the second
kind, and its own comma, since the second kind is empty where the third one is. -/
theorem build_exact_of_reversed :
    Rules.Closed loopedRules ∧ loopedRules.reverse.Perm loopedRules ∧
      ∃ grammar, build loopedRules.reverse = .ok grammar ∧ ∃ production,
        grammar.production? (.extension 0) = some production ∧ ¬production.nullable = true ∧
          production.first.Has (.word "as") ∧ production.first.Has (.token .comma) := by
  have hclosed : Rules.Closed loopedRules := by
    refine ⟨by decide, fun kind hlacks => hlacks.2 ?_⟩
    have hkind : kind = .extension 1 ∨ kind = .extension 2 ∨ kind = .extension 0 := by
      simpa [Rules.symbols, loopedRules, Pattern.symbols, Slot.all, Slot.allOrNone, Slot.oneOf,
        Slot.many] using hlacks.1
    rcases hkind with rfl | rfl | rfl <;> decide
  have horder : loopedRules.reverse.Perm loopedRules := List.reverse_perm _
  obtain ⟨-, grammar, hbuild, -, hproductions⟩ :=
    (build_exact loopedRules).2.2.2 hclosed _ horder
  obtain ⟨production, hproduction, hkind, hexact⟩ :=
    hproductions (.extension 0) _ List.mem_cons_self
  have hthird : Rules.Nullable loopedRules (.node (.extension 2)) :=
    .node (.tail _ (.tail _ (.head _))) (List.forall_mem_singleton.mpr (.zero rfl))
  have hsecond : Rules.Nullable loopedRules (.node (.extension 1)) :=
    .node (.tail _ (.head _)) (List.forall_mem_cons.mpr ⟨.zero rfl,
      List.forall_mem_singleton.mpr (.choice rfl (.tail _ (.head _)) hthird)⟩)
  have hfirst : ¬Rules.Nullable loopedRules (.node (.extension 0)) := by
    rintro ⟨hrule, hslots⟩
    obtain rfl : _ = [Slot.all [.node (.extension 1), .token .comma]] := by
      simpa [loopedRules] using hrule
    cases List.forall_mem_singleton.mp hslots with
    | zero hzero => cases hzero
    | sequence hpattern hsymbols =>
        cases hpattern
        cases hsymbols (.token .comma) (.tail _ (.head _))
    | choice hpattern => cases hpattern
  have hword : Rules.Starts loopedRules (.node (.extension 1)) (.word "as") :=
    .node (.tail _ (.head _))
      ⟨_, AtFront.cons_iff.mpr (.inl rfl), AtFront.cons_iff.mpr (.inl rfl)⟩ (.word "as")
  refine ⟨hclosed, horder, grammar, hbuild, production, hproduction, ?_, ?_, ?_⟩
  · rwa [hexact.nullable, hkind]
  · rw [hexact.first, hkind]
    exact .node (.head _)
      ⟨_, AtFront.cons_iff.mpr (.inl rfl), AtFront.cons_iff.mpr (.inl rfl)⟩ hword
  · rw [hexact.first, hkind]
    exact .node (.head _) ⟨_, AtFront.cons_iff.mpr (.inl rfl), AtFront.cons_iff.mpr (.inr
      ⟨hsecond, AtFront.cons_iff.mpr (.inl rfl)⟩)⟩ (.token .comma)

end Grammar

end LosslessTree
