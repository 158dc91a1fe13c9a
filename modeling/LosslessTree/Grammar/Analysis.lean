import LosslessTree.Grammar.Lookahead
import LosslessTree.Grammar.Rule

/-!
What the rules say about the front of each kind of node: which tokens may begin it, and whether it
may be empty. Both are the least facts closed under the rules. They are found by going through
the rules in order until a whole round adds nothing.
-/

namespace LosslessTree

namespace Grammar

structure Facts where
  first : Lookahead
  nullable : Bool
  deriving DecidableEq

namespace Facts

def none : Facts := ⟨.empty, false⟩

/-- The facts of parts that follow each other: a part counts while all before it may be empty. -/
def ofSequence : List Facts → Facts
  | [] => ⟨.empty, true⟩
  | part :: rest =>
    if part.nullable then
      let rest := ofSequence rest
      ⟨part.first.union rest.first, rest.nullable⟩
    else part

def ofChoice : List Facts → Facts
  | [] => none
  | part :: rest =>
    let rest := ofChoice rest
    ⟨part.first.union rest.first, part.nullable || rest.nullable⟩

def join (left right : Facts) : Facts :=
  ⟨left.first.union right.first, left.nullable || right.nullable⟩

end Facts

/-- Facts known so far, one entry for each rule. -/
abbrev FactTable := List (NodeKind × Facts)

namespace FactTable

def facts (table : FactTable) (kind : NodeKind) : Facts := (table.lookup kind).getD .none

def ofSymbol (table : FactTable) : Symbol → Facts
  | .token kind => ⟨.ofKind kind, false⟩
  | .word text => ⟨.ofWord text, false⟩
  | .node kind => table.facts kind

def ofPattern (table : FactTable) : Pattern → Facts
  | .sequence symbols => .ofSequence (symbols.map table.ofSymbol)
  | .choice symbols => .ofChoice (symbols.map table.ofSymbol)

def ofSlot (table : FactTable) (slot : Slot) : Facts :=
  let facts := table.ofPattern slot.pattern
  { facts with nullable := facts.nullable || slot.multiplicity.allowsZero }

def ofRule (table : FactTable) (rule : Rule) : Facts := .ofSequence (rule.map table.ofSlot)

def add (kind : NodeKind) (more : Facts) (table : FactTable) : FactTable :=
  table.map fun entry => if entry.1 = kind then (entry.1, entry.2.join more) else entry

/-- Goes through all rules once; a rule already sees what the rules before it added. -/
def round (rules : Rules) (table : FactTable) : FactTable :=
  rules.foldl (fun table entry => table.add entry.1 (table.ofRule entry.2)) table

def solve (rules : Rules) : (rounds : Nat) → FactTable → FactTable
  | 0, table => table
  | rounds + 1, table =>
    let next := round rules table
    if next = table then table else solve rules rounds next

end FactTable

def Rules.symbols (rules : Rules) : List Symbol :=
  rules.flatMap fun entry => entry.2.flatMap fun slot => slot.pattern.symbols

/-- More rounds than there are facts to add: for each rule emptiness, the kinds of tokens, and
the words of the grammar. -/
def Rules.roundBound (rules : Rules) : Nat := rules.length * (59 + (Rules.symbols rules).length) + 1

def Rules.analyse (rules : Rules) : FactTable :=
  FactTable.solve rules (Rules.roundBound rules) (rules.map fun entry => (entry.1, .none))

end Grammar

end LosslessTree
