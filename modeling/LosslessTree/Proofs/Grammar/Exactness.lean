import LosslessTree.Proofs.Grammar.Prediction
import LosslessTree.Proofs.Grammar.Sweep

/-!
The facts of the analysis are exact. What may be empty, and what may stand first, are defined here
by induction over the rules, without rounds and without an order of the rules; the analysis finds
these facts, no more and no fewer, and a grammar passes them on to its places and parts.
-/

namespace LosslessTree

/-! ## Members of sets -/

namespace Lookahead

/-- The kinds of tokens and the words of a set, as the symbols that stand for them. -/
def Has (set : Lookahead) : Grammar.Symbol → Prop
  | .token kind => set.kinds.contains kind = true
  | .word text => text ∈ set.words
  | .node _ => False

variable {set left right : Lookahead} {symbol : Grammar.Symbol}

theorem not_has_empty : ¬empty.Has symbol := by
  cases symbol <;> simp [Has, empty]

theorem has_union : (left.union right).Has symbol ↔ left.Has symbol ∨ right.Has symbol := by
  cases symbol with
  | token kind => simp [Has, union]
  | word text => exact mem_words_union
  | node kind => simp [Has]

theorem has_ofKind {kind : TokenKind} : (ofKind kind).Has symbol ↔ symbol = .token kind := by
  cases symbol <;> simp [Has, ofKind, ofKinds, eq_comm]

theorem has_ofWord {text : String} : (ofWord text).Has symbol ↔ symbol = .word text := by
  cases symbol <;> simp [Has, ofWord]

end Lookahead

namespace Grammar

/-! ## Fronts of lists -/

/-- An item stands in a list with only such before it as may be left out. -/
def AtFront {α : Type} (skip : α → Prop) (items : List α) (item : α) : Prop :=
  ∃ before after, items = before ++ item :: after ∧ ∀ other ∈ before, skip other

namespace AtFront

variable {α : Type} {skip other : α → Prop} {items : List α} {item : α}

theorem not_nil : ¬AtFront skip [] item := by
  rintro ⟨before, after, heq, -⟩
  simp at heq

theorem cons_iff {head : α} {rest : List α} :
    AtFront skip (head :: rest) item ↔ item = head ∨ skip head ∧ AtFront skip rest item := by
  constructor
  · rintro ⟨before, after, heq, hbefore⟩
    cases before with
    | nil => exact .inl (List.cons.inj heq).1.symm
    | cons first before =>
        obtain ⟨rfl, rfl⟩ := List.cons.inj heq
        obtain ⟨hfirst, hbefore⟩ := List.forall_mem_cons.mp hbefore
        exact .inr ⟨hfirst, before, after, rfl, hbefore⟩
  · rintro (rfl | ⟨hhead, before, after, rfl, hbefore⟩)
    · exact ⟨[], rest, rfl, fun _ hmem => absurd hmem List.not_mem_nil⟩
    · exact ⟨head :: before, after, rfl, List.forall_mem_cons.mpr ⟨hhead, hbefore⟩⟩

theorem mono (hfront : AtFront skip items item) (hskip : ∀ item ∈ items, skip item → other item) :
    AtFront other items item := by
  obtain ⟨before, after, rfl, hbefore⟩ := hfront
  exact ⟨before, after, rfl, fun entry hentry =>
    hskip entry (List.mem_append_left _ hentry) (hbefore entry hentry)⟩

end AtFront

/-! ## What may be empty, and what may stand first -/

def Pattern.NullableBy (empty : Symbol → Prop) : Pattern → Prop
  | .sequence symbols => ∀ symbol ∈ symbols, empty symbol
  | .choice symbols => ∃ symbol ∈ symbols, empty symbol

def Slot.NullableBy (empty : Symbol → Prop) (slot : Slot) : Prop :=
  slot.multiplicity.allowsZero = true ∨ slot.pattern.NullableBy empty

/-- A symbol stands at the front of a pattern: behind others in a sequence only if they may be
empty, in a choice anyway. -/
def Pattern.Opens (empty : Symbol → Prop) (pattern : Pattern) (symbol : Symbol) : Prop :=
  match pattern with
  | .sequence symbols => AtFront empty symbols symbol
  | .choice symbols => symbol ∈ symbols

def Rule.Opens (empty : Symbol → Prop) (rule : Rule) (symbol : Symbol) : Prop :=
  ∃ slot, AtFront (Slot.NullableBy empty) rule slot ∧ slot.pattern.Opens empty symbol

mutual

/-- Kinds of nodes that may be empty: those with a rule all of whose slots may be empty. -/
inductive Rules.Nullable (rules : Rules) : Symbol → Prop
  | node {kind : NodeKind} {rule : Rule} (hrule : (kind, rule) ∈ rules)
      (hslots : ∀ slot ∈ rule, Rules.NullableSlot rules slot) : Rules.Nullable rules (.node kind)

inductive Rules.NullableSlot (rules : Rules) : Slot → Prop
  | zero {slot : Slot} (hzero : slot.multiplicity.allowsZero = true) :
      Rules.NullableSlot rules slot
  | sequence {slot : Slot} {symbols : List Symbol} (hpattern : slot.pattern = .sequence symbols)
      (hsymbols : ∀ symbol ∈ symbols, Rules.Nullable rules symbol) : Rules.NullableSlot rules slot
  | choice {slot : Slot} {symbols : List Symbol} {symbol : Symbol}
      (hpattern : slot.pattern = .choice symbols) (hsymbol : symbol ∈ symbols)
      (hnullable : Rules.Nullable rules symbol) : Rules.NullableSlot rules slot

end

inductive Rules.Starts (rules : Rules) : Symbol → Symbol → Prop
  | token (kind : TokenKind) : Rules.Starts rules (.token kind) (.token kind)
  | word (text : String) : Rules.Starts rules (.word text) (.word text)
  | node {kind : NodeKind} {rule : Rule} {symbol first : Symbol} (hrule : (kind, rule) ∈ rules)
      (hopens : rule.Opens (Rules.Nullable rules) symbol)
      (hstarts : Rules.Starts rules symbol first) : Rules.Starts rules (.node kind) first

section

variable {empty other : Symbol → Prop} (hempty : ∀ symbol, empty symbol → other symbol)

include hempty

theorem Pattern.NullableBy.mono {pattern : Pattern} (hpattern : pattern.NullableBy empty) :
    pattern.NullableBy other := by
  cases pattern with
  | sequence symbols => exact fun symbol hsymbol => hempty symbol (hpattern symbol hsymbol)
  | choice symbols =>
      obtain ⟨symbol, hsymbol, hholds⟩ := hpattern
      exact ⟨symbol, hsymbol, hempty symbol hholds⟩

theorem Slot.NullableBy.mono {slot : Slot} (hslot : slot.NullableBy empty) :
    slot.NullableBy other :=
  hslot.imp_right (Pattern.NullableBy.mono hempty)

theorem Pattern.Opens.mono {pattern : Pattern} {symbol : Symbol}
    (hopens : pattern.Opens empty symbol) : pattern.Opens other symbol := by
  cases pattern with
  | sequence symbols => exact AtFront.mono hopens fun symbol _ => hempty symbol
  | choice symbols => exact hopens

theorem Rule.Opens.mono {rule : Rule} {symbol : Symbol} (hopens : rule.Opens empty symbol) :
    rule.Opens other symbol := by
  obtain ⟨slot, hslot, hsymbol⟩ := hopens
  exact ⟨slot, hslot.mono fun _ _ => Slot.NullableBy.mono hempty, hsymbol.mono hempty⟩

end

theorem Rules.nullableSlot_iff {rules : Rules} {slot : Slot} :
    Rules.NullableSlot rules slot ↔ slot.NullableBy (Rules.Nullable rules) := by
  unfold Slot.NullableBy
  constructor
  · rintro (hzero | ⟨hpattern, hsymbols⟩ | ⟨hpattern, hsymbol, hnullable⟩)
    · exact .inl hzero
    · rw [hpattern]
      exact .inr hsymbols
    · rw [hpattern]
      exact .inr ⟨_, hsymbol, hnullable⟩
  · rintro (hzero | hnullable)
    · exact .zero hzero
    · cases hpattern : slot.pattern with
      | sequence symbols =>
          rw [hpattern] at hnullable
          exact .sequence hpattern hnullable
      | choice symbols =>
          rw [hpattern] at hnullable
          obtain ⟨symbol, hsymbol, hholds⟩ := hnullable
          exact .choice hpattern hsymbol hholds

/-! ## Facts of lists, slots and rules -/

namespace Facts

variable {α : Type} {facts : α → Facts} {items : List α} {symbol : Symbol}

theorem has_ofSequence : (ofSequence (items.map facts)).first.Has symbol ↔
    ∃ item, AtFront (fun item => (facts item).nullable = true) items item ∧
      (facts item).first.Has symbol := by
  induction items with
  | nil => simp [ofSequence, Lookahead.not_has_empty, AtFront.not_nil]
  | cons head rest ih =>
      have hcons : (ofSequence ((head :: rest).map facts)).first.Has symbol ↔
          (facts head).first.Has symbol ∨ (facts head).nullable = true ∧
            (ofSequence (rest.map facts)).first.Has symbol := by
        rw [List.map_cons, ofSequence]
        split
        · next hhead => simp [Lookahead.has_union, hhead]
        · next hhead => simp [hhead]
      rw [hcons, ih]
      simp only [AtFront.cons_iff, or_and_right, exists_or, exists_eq_left, and_assoc,
        exists_and_left]

theorem has_ofChoice : (ofChoice (items.map facts)).first.Has symbol ↔
    ∃ item ∈ items, (facts item).first.Has symbol := by
  induction items with
  | nil => simp [ofChoice, none, Lookahead.not_has_empty]
  | cons head rest ih =>
      rw [List.map_cons, ofChoice, Lookahead.has_union, ih, List.exists_mem_cons_iff]

theorem nullable_ofSequence_iff : (ofSequence (items.map facts)).nullable = true ↔
    ∀ item ∈ items, (facts item).nullable = true := by
  induction items with
  | nil => simp [ofSequence]
  | cons head rest ih =>
      rw [List.map_cons, nullable_cons, Bool.and_eq_true, ih, List.forall_mem_cons]

theorem nullable_ofChoice_iff : (ofChoice (items.map facts)).nullable = true ↔
    ∃ item ∈ items, (facts item).nullable = true := by
  induction items with
  | nil => simp [ofChoice, none]
  | cons head rest ih =>
      rw [List.map_cons, ofChoice, Bool.or_eq_true, ih, List.exists_mem_cons_iff]

end Facts

namespace FactTable

variable (table : FactTable) {first : Symbol}

def Empties (symbol : Symbol) : Prop := (table.ofSymbol symbol).nullable = true

theorem nullable_ofPattern {pattern : Pattern} :
    (table.ofPattern pattern).nullable = true ↔ pattern.NullableBy table.Empties := by
  cases pattern with
  | sequence symbols => exact Facts.nullable_ofSequence_iff
  | choice symbols => exact Facts.nullable_ofChoice_iff

theorem nullable_ofSlot {slot : Slot} :
    (table.ofSlot slot).nullable = true ↔ slot.NullableBy table.Empties := by
  rw [ofSlot, Bool.or_eq_true, nullable_ofPattern, or_comm]
  rfl

theorem nullable_ofRule {rule : Rule} :
    (table.ofRule rule).nullable = true ↔ ∀ slot ∈ rule, slot.NullableBy table.Empties := by
  simp only [ofRule, Facts.nullable_ofSequence_iff, nullable_ofSlot]

theorem has_ofPattern {pattern : Pattern} : (table.ofPattern pattern).first.Has first ↔
    ∃ symbol, pattern.Opens table.Empties symbol ∧ (table.ofSymbol symbol).first.Has first := by
  cases pattern with
  | sequence symbols => exact Facts.has_ofSequence
  | choice symbols => exact Facts.has_ofChoice

theorem has_ofRule {rule : Rule} : (table.ofRule rule).first.Has first ↔
    ∃ symbol, rule.Opens table.Empties symbol ∧ (table.ofSymbol symbol).first.Has first := by
  simp only [ofRule, Facts.has_ofSequence, nullable_ofSlot]
  constructor
  · rintro ⟨slot, hslot, hfirst⟩
    have hpattern : (table.ofPattern slot.pattern).first.Has first := hfirst
    obtain ⟨symbol, hsymbol, hfirst⟩ := table.has_ofPattern.mp hpattern
    exact ⟨symbol, ⟨slot, hslot, hsymbol⟩, hfirst⟩
  · rintro ⟨symbol, ⟨slot, hslot, hsymbol⟩, hfirst⟩
    exact ⟨slot, hslot, table.has_ofPattern.mpr ⟨symbol, hsymbol, hfirst⟩⟩

/-! ## No more than the rules say -/

/-- All that a table knows follows from the rules. -/
structure Justified (rules : Rules) (table : FactTable) : Prop where
  nullable {symbol : Symbol} : table.Empties symbol → Rules.Nullable rules symbol
  first {symbol first : Symbol} : (table.ofSymbol symbol).first.Has first →
    Rules.Starts rules symbol first

variable {table} {rules : Rules}

theorem justified_of_facts
    (hnullable : ∀ kind, (table.facts kind).nullable = true → Rules.Nullable rules (.node kind))
    (hfirst : ∀ kind first, (table.facts kind).first.Has first →
      Rules.Starts rules (.node kind) first) : Justified rules table where
  nullable {symbol} hempties := by
    cases symbol with
    | token kind => cases hempties
    | word text => cases hempties
    | node kind => exact hnullable kind hempties
  first {symbol first} hhas := by
    cases symbol with
    | token kind =>
        rw [Lookahead.has_ofKind.mp hhas]
        exact .token kind
    | word text =>
        rw [Lookahead.has_ofWord.mp hhas]
        exact .word text
    | node kind => exact hfirst kind first hhas

theorem justified_initial (rules : Rules) :
    Justified rules (rules.map fun entry => (entry.1, Facts.none)) := by
  refine justified_of_facts (fun kind hnullable => ?_) fun kind first hfirst => ?_
  · rw [facts_initial] at hnullable
    cases hnullable
  · rw [facts_initial] at hfirst
    exact absurd hfirst Lookahead.not_has_empty

theorem Justified.add (hjustified : Justified rules table) {entry : NodeKind × Rule}
    (hentry : entry ∈ rules) : Justified rules (table.add entry.1 (table.ofRule entry.2)) := by
  have hadd (kind : NodeKind) :
      (table.add entry.1 (table.ofRule entry.2)).facts kind = table.facts kind ∨
        kind = entry.1 ∧ (table.add entry.1 (table.ofRule entry.2)).facts kind =
          (table.facts kind).join (table.ofRule entry.2) := facts_add _ table
  refine justified_of_facts (fun kind hnullable => ?_) fun kind first hfirst => ?_
  · rcases hadd kind with heq | ⟨rfl, heq⟩
    · rw [heq] at hnullable
      exact hjustified.nullable hnullable
    · rw [heq, Facts.join, Bool.or_eq_true] at hnullable
      rcases hnullable with hknown | hrule
      · exact hjustified.nullable hknown
      · refine .node hentry fun slot hslot => Rules.nullableSlot_iff.mpr ?_
        exact (table.nullable_ofRule.mp hrule slot hslot).mono fun _ => hjustified.nullable
  · rcases hadd kind with heq | ⟨rfl, heq⟩
    · rw [heq] at hfirst
      exact hjustified.first hfirst
    · rw [heq, Facts.join, Lookahead.has_union] at hfirst
      rcases hfirst with hknown | hrule
      · exact hjustified.first hknown
      · obtain ⟨symbol, hopens, hfirst⟩ := table.has_ofRule.mp hrule
        exact .node hentry (hopens.mono fun _ => hjustified.nullable) (hjustified.first hfirst)

end FactTable

open FactTable

variable {rules : Rules} {symbol first : Symbol}

theorem analyse_justified (rules : Rules) : Justified rules (Rules.analyse rules) :=
  solve_induction (fun _ _ hentry hjustified => hjustified.add hentry) _ (justified_initial rules)

/-! ## No less than the rules say -/

mutual

theorem Rules.Nullable.empties {symbol : Symbol} :
    Rules.Nullable rules symbol → (Rules.analyse rules).Empties symbol
  | .node hrule hslots => analyse_empties hrule <|
      (nullable_ofRule _).mpr fun slot hslot => Rules.NullableSlot.empties (hslots slot hslot)

theorem Rules.NullableSlot.empties {slot : Slot} :
    Rules.NullableSlot rules slot → slot.NullableBy (Rules.analyse rules).Empties
  | .zero hzero => .inl hzero
  | .sequence hpattern hsymbols => by
      right
      rw [hpattern]
      exact fun symbol hsymbol => Rules.Nullable.empties (hsymbols symbol hsymbol)
  | .choice hpattern hsymbol hnullable => by
      right
      rw [hpattern]
      exact ⟨_, hsymbol, Rules.Nullable.empties hnullable⟩

end

theorem analyse_has {kind : NodeKind} {rule : Rule} (hrule : (kind, rule) ∈ rules)
    (hhas : ((Rules.analyse rules).ofRule rule).first.Has first) :
    ((Rules.analyse rules).facts kind).first.Has first := by
  rw [← analyse_absorbs hrule, Facts.join, Lookahead.has_union]
  exact .inr hhas

theorem nullable_analyse_iff :
    ((Rules.analyse rules).ofSymbol symbol).nullable = true ↔ Rules.Nullable rules symbol :=
  ⟨(analyse_justified rules).nullable, Rules.Nullable.empties⟩

theorem has_analyse_iff :
    ((Rules.analyse rules).ofSymbol symbol).first.Has first ↔ Rules.Starts rules symbol first := by
  refine ⟨(analyse_justified rules).first, fun hstarts => ?_⟩
  induction hstarts with
  | token kind => exact Lookahead.has_ofKind.mpr rfl
  | word text => exact Lookahead.has_ofWord.mpr rfl
  | node hrule hopens _ ih =>
      refine analyse_has hrule ((has_ofRule _).mpr ⟨_, hopens.mono fun _ => ?_, ih⟩)
      exact Rules.Nullable.empties

theorem nullable_analyse_slot_iff {slot : Slot} :
    ((Rules.analyse rules).ofSlot slot).nullable = true ↔ Rules.NullableSlot rules slot := by
  rw [nullable_ofSlot, Rules.nullableSlot_iff]
  exact ⟨Slot.NullableBy.mono fun _ => nullable_analyse_iff.mp,
    Slot.NullableBy.mono fun _ => nullable_analyse_iff.mpr⟩

theorem has_analyse_slot_iff {slot : Slot} :
    ((Rules.analyse rules).ofSlot slot).first.Has first ↔
      ∃ symbol, slot.pattern.Opens (Rules.Nullable rules) symbol ∧
        Rules.Starts rules symbol first := by
  refine (has_ofPattern (Rules.analyse rules)).trans (exists_congr fun symbol => ?_)
  rw [has_analyse_iff]
  refine and_congr_left fun _ => ⟨?_, ?_⟩
  · exact Pattern.Opens.mono fun _ => nullable_analyse_iff.mp
  · exact Pattern.Opens.mono fun _ => nullable_analyse_iff.mpr

end Grammar

end LosslessTree
