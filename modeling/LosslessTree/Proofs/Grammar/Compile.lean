import Mathlib.Data.List.Nodup
import LosslessTree.Grammar.Basic
import LosslessTree.Proofs.Grammar.Analysis
import LosslessTree.Proofs.Grammar.Conformance

/-!
What a grammar has of the rules it was built from: one production for each rule, with the slots and
symbols of the rule, and what the analysis found out about each of them. No symbol stands for a kind
without a production.
-/

namespace LosslessTree

namespace Grammar

def parts (grammar : Grammar) : List Part :=
  grammar.productions.flatMap fun production => production.places.flatMap (·.parts)

def Mentions (grammar : Grammar) (kind : NodeKind) : Prop :=
  ∃ part ∈ grammar.parts, part.symbol = .node kind

def Has (grammar : Grammar) (place : Place) : Prop :=
  ∃ kind production, grammar.production? kind = some production ∧ place ∈ production.places

/-- The symbols of a sequence that may turn out to be missing. Where a slot may be left out, it is
entered only at its first symbol. -/
def Slot.required (slot : Slot) : List Symbol :=
  match slot.pattern, slot.multiplicity with
  | .sequence symbols, .exactlyOne => symbols
  | .sequence symbols, _ => symbols.tail
  | .choice _, _ => []

theorem Slot.required_of_exactlyOne {slot : Slot} {symbols : List Symbol}
    (hpattern : slot.pattern = .sequence symbols) (hone : slot.multiplicity = .exactlyOne) :
    slot.required = symbols := by
  simp only [required, hpattern, hone]

theorem Slot.mem_required_of_tail {slot : Slot} {symbols : List Symbol} {symbol : Symbol}
    (hpattern : slot.pattern = .sequence symbols) (hsymbol : symbol ∈ symbols.tail) :
    symbol ∈ slot.required := by
  unfold required
  rw [hpattern]
  cases slot.multiplicity with
  | exactlyOne => exact List.mem_of_mem_tail hsymbol
  | zeroOrOne => exact hsymbol
  | zeroOrMore => exact hsymbol
  | oneOrMore => exact hsymbol

def Requires (grammar : Grammar) (kind : NodeKind) : Prop :=
  ∃ place, grammar.Has place ∧ .node kind ∈ place.slot.required

theorem mem_parts {grammar : Grammar} {kind : NodeKind} {production : Production}
    (hproduction : grammar.production? kind = some production) {place : Place}
    (hplace : place ∈ production.places) {part : Part} (hpart : part ∈ place.parts) :
    part ∈ grammar.parts :=
  List.mem_flatMap.mpr ⟨production, List.mem_of_find?_eq_some hproduction,
    List.mem_flatMap.mpr ⟨place, hplace, hpart⟩⟩

theorem Has.parts {grammar : Grammar} {place : Place} (hplace : grammar.Has place) :
    ∀ part ∈ place.parts, part ∈ grammar.parts := by
  obtain ⟨_, _, hproduction, hmem⟩ := hplace
  exact fun _ hpart => mem_parts hproduction hmem hpart

/-! ## Places and parts -/

variable {table : FactTable}

def Part.facts (part : Part) : Facts := ⟨part.first, part.nullable⟩

def Place.facts (place : Place) : Facts := ⟨place.first, place.nullable⟩

theorem partsOfSequence_symbols (symbols : List Symbol) :
    (partsOfSequence table symbols).map (·.symbol) = symbols := by
  induction symbols with
  | nil => rfl
  | cons symbol rest ih => rw [partsOfSequence, List.map_cons, ih]

theorem partsOf_symbols (pattern : Pattern) :
    (partsOf table pattern).map (·.symbol) = pattern.symbols := by
  cases pattern with
  | sequence symbols => exact partsOfSequence_symbols symbols
  | choice symbols => simp [partsOf, Pattern.symbols, Function.comp_def]

theorem facts_of_mem_partsOfSequence {symbols : List Symbol} {part : Part}
    (hpart : part ∈ partsOfSequence table symbols) :
    part.facts = table.ofSymbol part.symbol := by
  induction symbols with
  | nil => cases hpart
  | cons symbol rest ih =>
      rcases List.mem_cons.mp hpart with rfl | hrest
      · rfl
      · exact ih hrest

theorem facts_of_mem_partsOf {pattern : Pattern} {part : Part}
    (hpart : part ∈ partsOf table pattern) : part.facts = table.ofSymbol part.symbol := by
  cases pattern with
  | sequence symbols => exact facts_of_mem_partsOfSequence hpart
  | choice symbols =>
      obtain ⟨symbol, -, rfl⟩ := List.mem_map.mp hpart
      rfl

theorem placesOf_slots (table : FactTable) (rule : Rule) :
    (placesOf table rule).map (·.slot) = rule := by
  induction rule with
  | nil => rfl
  | cons slot rest ih => rw [placesOf, List.map_cons, ih]

theorem mem_placesOf {rule : Rule} {place : Place} (hplace : place ∈ placesOf table rule) :
    place.parts = partsOf table place.slot.pattern ∧ place.facts = table.ofSlot place.slot := by
  induction rule with
  | nil => cases hplace
  | cons slot rest ih =>
      rcases List.mem_cons.mp hplace with rfl | hrest
      · exact ⟨rfl, rfl⟩
      · exact ih hrest

/-- A token at the front of a sequence is that of its first part, unless this may be empty. -/
theorem partsOfSequence_enters {symbols : List Symbol} {token : Token}
    (hadmits : (Facts.ofSequence (symbols.map table.ofSymbol)).first.admits token = true) :
    ∃ part rest, partsOfSequence table symbols = part :: rest ∧
      (part.first.admits token = true ∨ part.nullable = true) := by
  cases symbols with
  | nil => simp [Facts.ofSequence] at hadmits
  | cons symbol rest =>
      refine ⟨_, _, rfl, ?_⟩
      rw [List.map_cons, Facts.ofSequence] at hadmits
      split at hadmits
      · next hnullable => exact .inr hnullable
      · exact .inl hadmits

theorem partsOfChoice_offers {symbols : List Symbol} {token : Token}
    (hadmits : (Facts.ofChoice (symbols.map table.ofSymbol)).first.admits token = true) :
    ∃ part ∈ partsOf table (.choice symbols), part.first.admits token = true := by
  obtain ⟨facts, hfacts, hadmits⟩ := Facts.admits_ofChoice hadmits
  obtain ⟨symbol, hsymbol, heq⟩ := List.mem_map.mp hfacts
  subst heq
  exact ⟨_, List.mem_map_of_mem hsymbol, hadmits⟩

theorem slot_mem_of_mem_placesOf {rule : Rule} {place : Place}
    (hplace : place ∈ placesOf table rule) : place.slot ∈ rule := by
  rw [← placesOf_slots table rule]
  exact List.mem_map_of_mem hplace

def partOf (table : FactTable) (follow : Lookahead) (symbol : Symbol) : Part where
  symbol := symbol
  first := (table.ofSymbol symbol).first
  nullable := (table.ofSymbol symbol).nullable
  follow := follow

theorem partsOfSequence_cons (table : FactTable) (symbol : Symbol) (rest : List Symbol) :
    partsOfSequence table (symbol :: rest) =
      partOf table (Facts.ofSequence (rest.map table.ofSymbol)).first symbol ::
        partsOfSequence table rest := rfl

theorem partsOf_choice (table : FactTable) (symbols : List Symbol) :
    partsOf table (.choice symbols) = symbols.map (partOf table .empty) := rfl

def placeOf (table : FactTable) (slot : Slot) (rest : Rule) : Place where
  slot := slot
  parts := partsOf table slot.pattern
  first := (table.ofSlot slot).first
  nullable := (table.ofSlot slot).nullable
  follow := (Facts.ofSequence (rest.map table.ofSlot)).first

theorem placesOf_cons (table : FactTable) (slot : Slot) (rest : Rule) :
    placesOf table (slot :: rest) = placeOf table slot rest :: placesOf table rest := rfl

/-! ## Productions -/

variable {rules : Rules} {grammar : Grammar} {kind : NodeKind}

theorem build_eq_ok (hbuild : build rules = .ok grammar) :
    firstDuplicate? [] (rules.map (·.1)) = none ∧ firstMissing? rules = none ∧
      compile rules = grammar := by
  unfold build at hbuild
  split at hbuild
  · cases hbuild
  · next hduplicate =>
      split at hbuild
      · cases hbuild
      · next hmissing => exact ⟨hduplicate, hmissing, Except.ok.inj hbuild⟩

theorem Rules.mem_symbols {rule : Rule} {slot : Slot}
    {symbol : Symbol} (hrule : (kind, rule) ∈ rules) (hslot : slot ∈ rule)
    (hsymbol : symbol ∈ slot.pattern.symbols) : symbol ∈ Rules.symbols rules :=
  List.mem_flatMap.mpr ⟨(kind, rule), hrule, List.mem_flatMap.mpr ⟨slot, hslot, hsymbol⟩⟩

theorem nodup_of_firstDuplicate? {seen kinds : List NodeKind}
    (hnone : firstDuplicate? seen kinds = none) : kinds.Nodup ∧ ∀ kind ∈ kinds, kind ∉ seen := by
  induction kinds generalizing seen with
  | nil => exact ⟨.nil, fun _ hkind => absurd hkind List.not_mem_nil⟩
  | cons kind rest ih =>
      unfold firstDuplicate? at hnone
      split at hnone
      · cases hnone
      · next hkind =>
          obtain ⟨hnodup, hrest⟩ := ih hnone
          refine ⟨List.nodup_cons.mpr ⟨fun hmem => hrest kind hmem List.mem_cons_self, hnodup⟩, ?_⟩
          refine List.forall_mem_cons.mpr ⟨hkind, fun other hother hseen => ?_⟩
          exact hrest other hother (List.mem_cons_of_mem _ hseen)

theorem rule_unique (hbuild : build rules = .ok grammar) {rule other : Rule}
    (hrule : (kind, rule) ∈ rules) (hother : (kind, other) ∈ rules) : rule = other := by
  obtain ⟨hduplicate, -, -⟩ := build_eq_ok hbuild
  have hnodup := (nodup_of_firstDuplicate? hduplicate).1
  exact congrArg Prod.snd (List.inj_on_of_nodup_map hnodup hrule hother rfl)

theorem registered_of_symbol (hbuild : build rules = .ok grammar)
    (hsymbol : Symbol.node kind ∈ Rules.symbols rules) : kind ∈ rules.map (·.1) := by
  obtain ⟨-, hmissing, -⟩ := build_eq_ok hbuild
  have hfound := List.findSome?_eq_none_iff.mp hmissing _ hsymbol
  by_cases hkind : kind ∈ rules.map (·.1)
  · exact hkind
  · simp [Symbol.isMissing, hkind] at hfound

theorem mem_productions (hbuild : build rules = .ok grammar) {production : Production}
    (hproduction : production ∈ grammar.productions) :
    ∃ rule, (production.kind, rule) ∈ rules ∧
      production = productionOf (Rules.analyse rules) production.kind rule := by
  obtain ⟨-, -, rfl⟩ := build_eq_ok hbuild
  obtain ⟨⟨kind, rule⟩, hrule, rfl⟩ := List.mem_map.mp hproduction
  exact ⟨rule, hrule, rfl⟩

theorem production_of_rule (hbuild : build rules = .ok grammar) {production : Production}
    (hproduction : grammar.production? kind = some production) :
    ∃ rule, (kind, rule) ∈ rules ∧
      production = productionOf (Rules.analyse rules) kind rule := by
  obtain rfl : production.kind = kind := by simpa using List.find?_some hproduction
  exact mem_productions hbuild (List.mem_of_find?_eq_some hproduction)

theorem contains_iff (hbuild : build rules = .ok grammar) :
    grammar.contains kind = true ↔ kind ∈ rules.map (·.1) := by
  obtain ⟨-, -, rfl⟩ := build_eq_ok hbuild
  simp [contains, production?, compile, List.find?_isSome, productionOf]

theorem production?_of_rule (hbuild : build rules = .ok grammar) {rule : Rule}
    (hrule : (kind, rule) ∈ rules) :
    grammar.production? kind = some (productionOf (Rules.analyse rules) kind rule) := by
  have hcontains := (contains_iff hbuild).mpr (List.mem_map_of_mem hrule)
  obtain ⟨production, hproduction⟩ := Option.isSome_iff_exists.mp hcontains
  obtain ⟨other, hother, heq⟩ := production_of_rule hbuild hproduction
  rw [hproduction, heq, rule_unique hbuild hother hrule]

theorem mem_parts_facts (hbuild : build rules = .ok grammar) {part : Part}
    (hpart : part ∈ grammar.parts) :
    part.symbol ∈ Rules.symbols rules ∧
      part.facts = (Rules.analyse rules).ofSymbol part.symbol := by
  obtain ⟨production, hproduction, hpart⟩ := List.mem_flatMap.mp hpart
  obtain ⟨place, hplace, hpart⟩ := List.mem_flatMap.mp hpart
  obtain ⟨rule, hrule, heq⟩ := mem_productions hbuild hproduction
  rw [heq] at hplace
  have hslot := slot_mem_of_mem_placesOf hplace
  rw [(mem_placesOf hplace).1] at hpart
  have hsymbol : part.symbol ∈ place.slot.pattern.symbols := by
    rw [← partsOf_symbols]
    exact List.mem_map_of_mem hpart
  exact ⟨Rules.mem_symbols hrule hslot hsymbol, facts_of_mem_partsOf hpart⟩

theorem contains_of_mentions (hbuild : build rules = .ok grammar)
    (hmentions : grammar.Mentions kind) : grammar.contains kind = true := by
  obtain ⟨part, hpart, hsymbol⟩ := hmentions
  have hsymbols := (mem_parts_facts hbuild hpart).1
  rw [hsymbol] at hsymbols
  exact (contains_iff hbuild).mpr (registered_of_symbol hbuild hsymbols)

/-! ## What parsing relies on -/

def Production.rule (production : Production) : Rule := production.places.map (·.slot)

def Nullable (grammar : Grammar) (kind : NodeKind) : Prop :=
  ∃ production, grammar.production? kind = some production ∧ production.nullable = true

/-- What is known of each part is true of its symbol, and the end of the text is not expected. -/
structure Sound (grammar : Grammar) : Prop where
  token {part : Part} {kind : TokenKind} : part ∈ grammar.parts → part.symbol = .token kind →
    part.facts = ⟨.ofKind kind, false⟩ ∧ kind ≠ .eof
  word {part : Part} {text : String} : part ∈ grammar.parts → part.symbol = .word text →
    part.facts = ⟨.ofWord text, false⟩
  node {part : Part} {kind : NodeKind} : part ∈ grammar.parts → part.symbol = .node kind →
    part.nullable = true → grammar.Nullable kind
  avoids {part : Part} {token : Token} : part ∈ grammar.parts → token.kind = .eof →
    part.first.admits token = false
  closed {kind : NodeKind} : grammar.Mentions kind →
    ∃ production, grammar.production? kind = some production
  symbols {place : Place} : grammar.Has place →
    place.parts.map (·.symbol) = place.slot.pattern.symbols
  enters {place : Place} {symbols : List Symbol} {token : Token} : grammar.Has place →
    place.slot.pattern = .sequence symbols → place.first.admits token = true →
      ∃ part rest, place.parts = part :: rest ∧
        (part.first.admits token = true ∨ part.nullable = true)
  offers {place : Place} {symbols : List Symbol} {token : Token} : grammar.Has place →
    place.slot.pattern = .choice symbols → place.first.admits token = true →
      ∃ part ∈ place.parts, part.first.admits token = true

theorem rule_productionOf (table : FactTable) (kind : NodeKind) (rule : Rule) :
    (productionOf table kind rule).rule = rule :=
  placesOf_slots table rule

theorem place_of_build (hbuild : build rules = .ok grammar) {place : Place}
    (hplace : grammar.Has place) :
    place.parts = partsOf (Rules.analyse rules) place.slot.pattern ∧
      place.first = ((Rules.analyse rules).ofPattern place.slot.pattern).first := by
  obtain ⟨_, _, hproduction, hmem⟩ := hplace
  obtain ⟨rule, -, heq⟩ := production_of_rule hbuild hproduction
  rw [heq] at hmem
  obtain ⟨hparts, hfacts⟩ := mem_placesOf hmem
  exact ⟨hparts, congrArg Facts.first hfacts⟩

theorem sound_of_build (hbuild : build rules = .ok grammar)
    (heof : Symbol.token .eof ∉ Rules.symbols rules) : grammar.Sound where
  token hpart hsymbol := by
    obtain ⟨hmem, hfacts⟩ := mem_parts_facts hbuild hpart
    rw [hsymbol] at hmem hfacts
    exact ⟨hfacts, fun hkind => heof (hkind ▸ hmem)⟩
  word hpart hsymbol := by
    have hfacts := (mem_parts_facts hbuild hpart).2
    rwa [hsymbol] at hfacts
  node {part kind} hpart hsymbol hnullable := by
    have hfacts := (mem_parts_facts hbuild hpart).2
    have hcontains := contains_of_mentions hbuild ⟨part, hpart, hsymbol⟩
    obtain ⟨production, hproduction⟩ := Option.isSome_iff_exists.mp hcontains
    obtain ⟨rule, -, heq⟩ := production_of_rule hbuild hproduction
    refine ⟨production, hproduction, ?_⟩
    rw [heq]
    rw [hsymbol] at hfacts
    exact (congrArg Facts.nullable hfacts).symm.trans hnullable
  avoids {part token} hpart htoken := by
    obtain ⟨hmem, hfacts⟩ := mem_parts_facts hbuild hpart
    have hfirst : part.first = ((Rules.analyse rules).ofSymbol part.symbol).first :=
      congrArg Facts.first hfacts
    rw [hfirst]
    exact analyse_symbol_avoids_eof heof hmem htoken
  closed hmentions := Option.isSome_iff_exists.mp (contains_of_mentions hbuild hmentions)
  symbols hplace := by rw [(place_of_build hbuild hplace).1, partsOf_symbols]
  enters hplace hpattern hadmits := by
    obtain ⟨hparts, hfirst⟩ := place_of_build hbuild hplace
    rw [hfirst, hpattern] at hadmits
    rw [hparts, hpattern]
    exact partsOfSequence_enters hadmits
  offers hplace hpattern hadmits := by
    obtain ⟨hparts, hfirst⟩ := place_of_build hbuild hplace
    rw [hfirst, hpattern] at hadmits
    rw [hparts, hpattern]
    exact partsOfChoice_offers hadmits

/-- Only a kind that may be empty has a rule that nothing conforms to. -/
theorem nullable_of_accepts_nil (hbuild : build rules = .ok grammar) {production : Production}
    (hproduction : grammar.production? kind = some production) {α : Type} {fits : Symbol → α → Prop}
    (haccepts : Rule.Accepts True fits production.rule []) : grammar.Nullable kind := by
  obtain ⟨rule, hrule, heq⟩ := production_of_rule hbuild hproduction
  refine ⟨production, hproduction, ?_⟩
  rw [heq, rule_productionOf] at haccepts
  rw [heq]
  refine analyse_nullable hrule fun table => Facts.nullable_ofSequence fun facts hfacts => ?_
  obtain ⟨slot, hslot, hfacts⟩ := List.mem_map.mp hfacts
  subst hfacts
  rcases Slot.accepts_nil (haccepts.of_nil rfl slot hslot) with hzero | hpattern
  · simp [FactTable.ofSlot, hzero]
  · simp [FactTable.ofSlot, FactTable.ofPattern, Facts.ofSequence, hpattern]

end Grammar

end LosslessTree
