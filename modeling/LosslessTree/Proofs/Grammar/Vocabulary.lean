import LosslessTree.Proofs.Grammar.Compile

/-!
All sets of a grammar come from its symbols: they are put together by unions from single kinds of
tokens and from the words of the rules.
-/

namespace LosslessTree

def Lookahead.Within (words : List String) (set : Lookahead) : Prop :=
  ∀ word ∈ set.words, word ∈ words

namespace Lookahead.Within

variable {words : List String} {left right : Lookahead}

theorem union (hleft : left.Within words) (hright : right.Within words) :
    (left.union right).Within words := fun _ hword =>
  (mem_words_union.mp hword).elim (hleft _) (hright _)

theorem ofKinds (kinds : KindSet) : (Lookahead.ofKinds kinds).Within words := fun _ hword =>
  absurd hword List.not_mem_nil

theorem ofKind (kind : TokenKind) : (Lookahead.ofKind kind).Within words := ofKinds _

end Lookahead.Within

namespace Grammar

def Symbol.word? : Symbol → Option String
  | .word text => some text
  | _ => none

def Rules.words (rules : Rules) : List String := (Rules.symbols rules).filterMap Symbol.word?

/-- A property of sets that holds of single symbols and goes over to unions. -/
structure Rules.Inherited (rules : Rules) (P : Lookahead → Prop) : Prop where
  empty : P .empty
  union {left right : Lookahead} : P left → P right → P (left.union right)
  kind (kind : TokenKind) : P (.ofKind kind)
  word {text : String} : text ∈ Rules.words rules → P (.ofWord text)

theorem Rules.inherited_within (rules : Rules) :
    Rules.Inherited rules (Lookahead.Within (Rules.words rules)) where
  empty := .ofKinds .empty
  union := .union
  kind := .ofKind
  word hword other hother := by rwa [List.mem_singleton.mp hother]

namespace Rules.Inherited

variable {rules : Rules} {P : Lookahead → Prop} (hP : Rules.Inherited rules P)

include hP

theorem ofSequence {parts : List Facts} (hparts : ∀ part ∈ parts, P part.first) :
    P (Facts.ofSequence parts).first := by
  induction parts with
  | nil => exact hP.empty
  | cons part rest ih =>
      obtain ⟨hpart, hrest⟩ := List.forall_mem_cons.mp hparts
      unfold Facts.ofSequence
      split
      · exact hP.union hpart (ih hrest)
      · exact hpart

theorem ofChoice {parts : List Facts} (hparts : ∀ part ∈ parts, P part.first) :
    P (Facts.ofChoice parts).first := by
  induction parts with
  | nil => exact hP.empty
  | cons part rest ih =>
      obtain ⟨hpart, hrest⟩ := List.forall_mem_cons.mp hparts
      exact hP.union hpart (ih hrest)

section

variable {table : FactTable} (htable : ∀ kind, P (table.facts kind).first)

include htable

theorem ofSymbol {symbol : Symbol} (hsymbol : symbol ∈ Rules.symbols rules) :
    P (table.ofSymbol symbol).first := by
  cases symbol with
  | token kind => exact hP.kind kind
  | word text => exact hP.word (List.mem_filterMap.mpr ⟨_, hsymbol, rfl⟩)
  | node kind => exact htable kind

theorem ofSymbols {symbols : List Symbol}
    (hsymbols : ∀ symbol ∈ symbols, symbol ∈ Rules.symbols rules) :
    ∀ facts ∈ symbols.map table.ofSymbol, P facts.first := by
  intro facts hfacts
  obtain ⟨symbol, hsymbol, heq⟩ := List.mem_map.mp hfacts
  subst heq
  exact hP.ofSymbol htable (hsymbols symbol hsymbol)

theorem ofSlot {slot : Slot}
    (hsymbols : ∀ symbol ∈ slot.pattern.symbols, symbol ∈ Rules.symbols rules) :
    P (table.ofSlot slot).first := by
  have hfacts := hP.ofSymbols htable hsymbols
  change P (table.ofPattern slot.pattern).first
  cases hpattern : slot.pattern with
  | sequence symbols =>
      rw [hpattern] at hfacts
      exact hP.ofSequence hfacts
  | choice symbols =>
      rw [hpattern] at hfacts
      exact hP.ofChoice hfacts

theorem ofSlots {rule : Rule}
    (hrule : ∀ slot ∈ rule, ∀ symbol ∈ slot.pattern.symbols, symbol ∈ Rules.symbols rules) :
    ∀ facts ∈ rule.map table.ofSlot, P facts.first := by
  intro facts hfacts
  obtain ⟨slot, hslot, heq⟩ := List.mem_map.mp hfacts
  subst heq
  exact hP.ofSlot htable (hrule slot hslot)

theorem partsOfSequence {symbols : List Symbol}
    (hsymbols : ∀ symbol ∈ symbols, symbol ∈ Rules.symbols rules) {part : Part}
    (hpart : part ∈ partsOfSequence table symbols) : P part.first ∧ P part.follow := by
  induction symbols with
  | nil => cases hpart
  | cons symbol rest ih =>
      obtain ⟨hsymbol, hrest⟩ := List.forall_mem_cons.mp hsymbols
      rcases List.mem_cons.mp hpart with rfl | hmem
      · exact ⟨hP.ofSymbol htable hsymbol, hP.ofSequence (hP.ofSymbols htable hrest)⟩
      · exact ih hrest hmem

theorem partsOf {pattern : Pattern}
    (hsymbols : ∀ symbol ∈ pattern.symbols, symbol ∈ Rules.symbols rules) {part : Part}
    (hpart : part ∈ partsOf table pattern) : P part.first ∧ P part.follow := by
  cases pattern with
  | sequence symbols => exact hP.partsOfSequence htable hsymbols hpart
  | choice symbols =>
      obtain ⟨symbol, hsymbol, heq⟩ := List.mem_map.mp hpart
      subst heq
      exact ⟨hP.ofSymbol htable (hsymbols symbol hsymbol), hP.empty⟩

theorem placesOf {rule : Rule}
    (hrule : ∀ slot ∈ rule, ∀ symbol ∈ slot.pattern.symbols, symbol ∈ Rules.symbols rules)
    {place : Place} (hplace : place ∈ placesOf table rule) :
    P place.first ∧ P place.follow := by
  induction rule with
  | nil => cases hplace
  | cons slot rest ih =>
      obtain ⟨hslot, hrest⟩ := List.forall_mem_cons.mp hrule
      rcases List.mem_cons.mp hplace with rfl | hmem
      · exact ⟨hP.ofSlot htable hslot, hP.ofSequence (hP.ofSlots htable hrest)⟩
      · exact ih hrest hmem

end

theorem ofRule {table : FactTable} (htable : ∀ kind, P (table.facts kind).first)
    {entry : NodeKind × Rule} (hentry : entry ∈ rules) : P (table.ofRule entry.2).first :=
  hP.ofSequence (hP.ofSlots htable fun _ hslot _ => Rules.mem_symbols hentry hslot)

theorem analyse (kind : NodeKind) : P ((Rules.analyse rules).facts kind).first :=
  analyse_induction (P := fun facts => P facts.first) hP.empty
    (fun _ _ hleft hright => hP.union hleft hright)
    (fun _ htable _ hentry => hP.ofRule htable hentry) kind

variable {grammar : Grammar} (hbuild : build rules = .ok grammar) {production : Production}
  (hproduction : production ∈ grammar.productions) {place : Place}
  (hplace : place ∈ production.places)

include hbuild hproduction hplace

theorem sets_of_place : P place.first ∧ P place.follow := by
  obtain ⟨rule, hrule, heq⟩ := mem_productions hbuild hproduction
  rw [heq] at hplace
  exact hP.placesOf hP.analyse (fun _ hslot _ => Rules.mem_symbols hrule hslot) hplace

theorem sets_of_part {part : Part} (hpart : part ∈ place.parts) : P part.first ∧ P part.follow := by
  obtain ⟨rule, hrule, heq⟩ := mem_productions hbuild hproduction
  rw [heq] at hplace
  rw [(mem_placesOf hplace).1] at hpart
  have hslot := slot_mem_of_mem_placesOf hplace
  exact hP.partsOf hP.analyse (fun _ => Rules.mem_symbols hrule hslot) hpart

end Rules.Inherited

end Grammar

end LosslessTree
