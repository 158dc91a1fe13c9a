import LosslessTree.Error
import LosslessTree.Grammar.Analysis

/-!
Grammars: checked rules together with everything that parsing and child access need to know of
them. A grammar is built from rules that name each kind once and mention no kind without a rule.
-/

namespace LosslessTree

namespace Grammar

/-- A symbol in its place, with what may begin it and what may follow it inside its sequence. -/
structure Part where
  symbol : Symbol
  first : Lookahead
  nullable : Bool
  follow : Lookahead

/-- A slot with its parts, what may begin it, and what may follow it inside its rule. -/
structure Place where
  slot : Slot
  parts : List Part
  first : Lookahead
  nullable : Bool
  follow : Lookahead

/-- The kinds of children a rule permits, in order of appearance, with how many of each. -/
abbrev AccessorTable := List (NodeKind × Multiplicity)

structure Production where
  kind : NodeKind
  places : List Place
  first : Lookahead
  nullable : Bool
  accessors : AccessorTable

end Grammar

structure Grammar where
  productions : List Grammar.Production

namespace Grammar

def partsOfSequence (table : FactTable) : List Symbol → List Part
  | [] => []
  | symbol :: rest =>
    let facts := table.ofSymbol symbol
    ⟨symbol, facts.first, facts.nullable, (Facts.ofSequence (rest.map table.ofSymbol)).first⟩
      :: partsOfSequence table rest

def partsOf (table : FactTable) : Pattern → List Part
  | .sequence symbols => partsOfSequence table symbols
  | .choice symbols => symbols.map fun symbol =>
    let facts := table.ofSymbol symbol
    ⟨symbol, facts.first, facts.nullable, .empty⟩

def placesOf (table : FactTable) : Rule → List Place
  | [] => []
  | slot :: rest =>
    let facts := table.ofSlot slot
    { slot
      parts := partsOf table slot.pattern
      first := facts.first
      nullable := facts.nullable
      follow := (Facts.ofSequence (rest.map table.ofSlot)).first }
      :: placesOf table rest

namespace AccessorTable

def multiplicityIn (slot : Slot) : Multiplicity :=
  if slot.multiplicity.isRepeated then .zeroOrMore
  else match slot.multiplicity, slot.pattern with
    | .zeroOrOne, _ | _, .choice _ => .zeroOrOne
    | _, _ => .exactlyOne

/-- Adds a kind, which may have any number of children once it appears a second time. -/
def add (table : AccessorTable) (kind : NodeKind) (multiplicity : Multiplicity) : AccessorTable :=
  if (table.lookup kind).isSome then
    table.map fun entry => if entry.1 = kind then (kind, .zeroOrMore) else entry
  else table ++ [(kind, multiplicity)]

def addSymbol (multiplicity : Multiplicity) (table : AccessorTable) : Symbol → AccessorTable
  | .node kind => table.add kind multiplicity
  | _ => table

def ofRule (rule : Rule) : AccessorTable :=
  rule.foldl (fun table slot =>
    slot.pattern.symbols.foldl (addSymbol (multiplicityIn slot)) table) []

end AccessorTable

def productionOf (table : FactTable) (kind : NodeKind) (rule : Rule) : Production :=
  let facts := table.facts kind
  ⟨kind, placesOf table rule, facts.first, facts.nullable, AccessorTable.ofRule rule⟩

/-- The grammar of rules that need no checking. -/
def compile (rules : Rules) : Grammar :=
  let table := Rules.analyse rules
  ⟨rules.map fun entry => productionOf table entry.1 entry.2⟩

def firstDuplicate? : (seen : List NodeKind) → List NodeKind → Option NodeKind
  | _, [] => none
  | seen, kind :: rest =>
    if kind ∈ seen then some kind else firstDuplicate? (kind :: seen) rest

def Symbol.isMissing (rules : Rules) : Symbol → Option NodeKind
  | .node kind => if kind ∈ rules.map (·.1) then none else some kind
  | _ => none

def firstMissing? (rules : Rules) : Option NodeKind :=
  (Rules.symbols rules).findSome? (Symbol.isMissing rules)

/-- Checks the rules and compiles them. A repeated rule is found before a missing one. -/
def build (rules : Rules) : Except Error Grammar :=
  match firstDuplicate? [] (rules.map (·.1)) with
  | some kind => .error (.duplicateRule kind)
  | none =>
    match firstMissing? rules with
    | some kind => .error (.unknownKind kind)
    | none => .ok (compile rules)

def production? (grammar : Grammar) (kind : NodeKind) : Option Production :=
  grammar.productions.find? (·.kind = kind)

def production (grammar : Grammar) (kind : NodeKind) : Except Error Production :=
  match grammar.production? kind with
  | some production => .ok production
  | none => .error (.unknownKind kind)

def contains (grammar : Grammar) (kind : NodeKind) : Bool := (grammar.production? kind).isSome

def Production.accessor? (production : Production) (child : NodeKind) : Option Multiplicity :=
  production.accessors.lookup child

end Grammar

end LosslessTree
