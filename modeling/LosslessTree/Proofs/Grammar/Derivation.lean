import Mathlib.Logic.Relation
import LosslessTree.Proofs.Grammar.Conformance
import LosslessTree.Proofs.Node.Outline

/-!
What the rules of a grammar derive: forms, which are rows of symbols, and trees. In a form, symbols
that conform to the rule of a kind may take the place of the kind. In a tree they stand below it.
-/

namespace LosslessTree

/-- What a grammar sees of a token. -/
abbrev Content := TokenKind × String

def Token.content (token : Token) : Content := (token.kind, token.text)

namespace Outline

mutual

def yield : Outline String → List Content
  | leaf kind text => [(kind, text)]
  | node _ _ children => yields children

def yields : List (Outline String) → List Content
  | [] => []
  | outline :: rest => yield outline ++ yields rest

end

variable {α : Type}

mutual

def height : Outline α → Nat
  | leaf _ _ => 0
  | node _ _ children => heights children + 1

def heights : List (Outline α) → Nat
  | [] => 0
  | outline :: rest => max (height outline) (heights rest)

end

theorem yields_eq_flatMap (outlines : List (Outline String)) :
    yields outlines = outlines.flatMap yield := by
  induction outlines with
  | nil => rfl
  | cons outline rest ih => rw [yields, ih, List.flatMap_cons]

theorem height_le_heights {outlines : List (Outline α)} {outline : Outline α}
    (houtline : outline ∈ outlines) : outline.height ≤ heights outlines := by
  induction outlines with
  | nil => cases houtline
  | cons first rest ih =>
      unfold heights
      rcases List.mem_cons.mp houtline with heq | hrest
      · subst heq
        exact Nat.le_max_left _ _
      · exact Nat.le_trans (ih hrest) (Nat.le_max_right _ _)

end Outline

namespace Grammar

/-! ## Trees -/

structure Branch where
  symbol : Symbol
  tree : Outline String

def Symbol.Labels (symbol : Symbol) (branch : Branch) : Prop := symbol = branch.symbol

def contentsOf (branches : List Branch) : List Content := branches.flatMap (·.tree.yield)

inductive Derivation (rules : Rules) : Symbol → Outline String → Prop where
  | token (kind : TokenKind) (text : String) : Derivation rules (.token kind) (.leaf kind text)
  | word (text : String) : Derivation rules (.word text) (.leaf .varId text)
  | node {kind : NodeKind} {rule : Rule} {branches : List Branch} (hrule : (kind, rule) ∈ rules)
      (hbranches : Rule.Accepts True Symbol.Labels rule branches)
      (hbelow : ∀ branch ∈ branches, Derivation rules branch.symbol branch.tree) :
      Derivation rules (.node kind) (.node kind none (branches.map (·.tree)))

/-- A branch that the rules derive, whose nodes nest so many levels at most. -/
structure Branch.Derived (rules : Rules) (levels : Nat) (branch : Branch) : Prop where
  derivation : Derivation rules branch.symbol branch.tree
  height : branch.tree.height ≤ levels

theorem Branch.derived_below {rules : Rules} {levels : Nat} {branches : List Branch}
    {kind : NodeKind} (hbelow : ∀ branch ∈ branches, Derivation rules branch.symbol branch.tree)
    (hheight : (Outline.node kind none (branches.map (·.tree))).height ≤ levels + 1) :
    ∀ branch ∈ branches, branch.Derived rules levels := by
  intro branch hbranch
  refine ⟨hbelow branch hbranch, ?_⟩
  calc branch.tree.height
      ≤ Outline.heights (branches.map (·.tree)) :=
        Outline.height_le_heights (List.mem_map_of_mem hbranch)
    _ ≤ levels := Nat.le_of_succ_le_succ hheight

theorem yield_node (kind : NodeKind) (branches : List Branch) :
    (Outline.node kind none (branches.map (·.tree))).yield = contentsOf branches := by
  rw [Outline.yield, Outline.yields_eq_flatMap, List.flatMap_map, contentsOf]

@[simp] theorem contentsOf_nil : contentsOf [] = [] := rfl

@[simp] theorem contentsOf_cons (branch : Branch) (branches : List Branch) :
    contentsOf (branch :: branches) = branch.tree.yield ++ contentsOf branches := List.flatMap_cons

@[simp] theorem contentsOf_append (branches more : List Branch) :
    contentsOf (branches ++ more) = contentsOf branches ++ contentsOf more := List.flatMap_append

theorem form_of_sequence {symbols form : List Symbol}
    (haccepts : (Pattern.sequence symbols).Accepts True (· = ·) form) : form = symbols := by
  induction symbols generalizing form with
  | nil =>
      cases haccepts
      rfl
  | cons symbol rest ih =>
      cases haccepts with
      | cons hsymbol hrest =>
          rcases hsymbol with ⟨other, hother, heq⟩ | ⟨hwhole, -⟩
          · rw [heq, hother, ih hrest, List.singleton_append]
          · exact absurd trivial hwhole

theorem form_of_choice {symbols form : List Symbol}
    (haccepts : (Pattern.choice symbols).Accepts True (· = ·) form) :
    ∃ symbol ∈ symbols, form = [symbol] := by
  rcases haccepts with ⟨symbol, hsymbol, other, hother, heq⟩ | ⟨hwhole, -⟩
  · exact ⟨symbol, hsymbol, by rw [heq, hother]⟩
  · exact absurd trivial hwhole

theorem label_of_choice {symbols : List Symbol} {branches : List Branch}
    (haccepts : (Pattern.choice symbols).Accepts True Symbol.Labels branches) :
    ∃ branch, branch.symbol ∈ symbols ∧ branches = [branch] := by
  rcases haccepts with ⟨symbol, hsymbol, branch, hlabels, heq⟩ | ⟨hwhole, -⟩
  · exact ⟨branch, hlabels ▸ hsymbol, heq⟩
  · exact absurd trivial hwhole

theorem Pattern.symbols_of_labels {pattern : Pattern} {branches : List Branch}
    (haccepts : pattern.Accepts True Symbol.Labels branches) :
    pattern.Accepts True (· = ·) (branches.map (·.symbol)) := by
  apply haccepts.map
  intro symbol branch hlabels
  exact hlabels

theorem Slot.symbols_of_labels {slot : Slot} {branches : List Branch}
    (haccepts : slot.Accepts True Symbol.Labels branches) :
    slot.Accepts True (· = ·) (branches.map (·.symbol)) := by
  apply haccepts.map
  intro symbol branch hlabels
  exact hlabels

theorem Rule.symbols_of_labels {rule : Rule} {branches : List Branch}
    (haccepts : Rule.Accepts True Symbol.Labels rule branches) :
    Rule.Accepts True (· = ·) rule (branches.map (·.symbol)) := by
  apply haccepts.map
  intro symbol branch hlabels
  exact hlabels

/-! ## Forms -/

inductive Produces (rules : Rules) : List Symbol → List Symbol → Prop where
  | rule {kind : NodeKind} {rule : Rule} {symbols : List Symbol} (before after : List Symbol)
      (hrule : (kind, rule) ∈ rules) (hsymbols : Rule.Accepts True (· = ·) rule symbols) :
      Produces rules (before ++ .node kind :: after) (before ++ symbols ++ after)

def Derives (rules : Rules) : List Symbol → List Symbol → Prop :=
  Relation.ReflTransGen (Produces rules)

variable {rules : Rules}

theorem Derives.rule {kind : NodeKind} {rule : Rule} {symbols form : List Symbol}
    (before after : List Symbol)
    (hderives : Derives rules form (before ++ .node kind :: after)) (hrule : (kind, rule) ∈ rules)
    (hsymbols : Rule.Accepts True (· = ·) rule symbols) :
    Derives rules form (before ++ symbols ++ after) :=
  Relation.ReflTransGen.tail hderives (.rule before after hrule hsymbols)

def Symbol.Matches : Symbol → Content → Prop
  | .token kind, content => content.1 = kind
  | .word text, content => content = (.varId, text)
  | .node _, _ => False

/-- Some content may stand at the front of what a form derives. -/
def Leads (rules : Rules) (form : List Symbol) (content : Content) : Prop :=
  ∃ symbol rest, Derives rules form (symbol :: rest) ∧ symbol.Matches content

theorem Leads.of_derives {form other : List Symbol} {content : Content}
    (hleads : Leads rules other content) (hderives : Derives rules form other) :
    Leads rules form content := by
  obtain ⟨symbol, rest, hother, hmatches⟩ := hleads
  exact ⟨symbol, rest, Relation.ReflTransGen.trans hderives hother, hmatches⟩

/-! ## What trees open with -/

/-- What some symbols come to in front of others: they vanish if there is nothing below them, and
otherwise the first content below them leads. -/
structure Opens (rules : Rules) (symbols : List Symbol) (contents : List Content) : Prop where
  vanishes : contents = [] → ∀ after, Derives rules (symbols ++ after) after
  leads {content : Content} {more : List Content} : contents = content :: more →
    ∀ after, Leads rules (symbols ++ after) content

namespace Opens

variable {symbols others : List Symbol} {contents more : List Content}

theorem nil : Opens rules [] [] :=
  ⟨fun _ _ => .refl, fun hcontents => nomatch hcontents⟩

theorem append (hfirst : Opens rules symbols contents) (hsecond : Opens rules others more) :
    Opens rules (symbols ++ others) (contents ++ more) where
  vanishes hnil after := by
    obtain ⟨hcontents, hmore⟩ := List.append_eq_nil_iff.mp hnil
    rw [List.append_assoc]
    exact (hfirst.vanishes hcontents _).trans (hsecond.vanishes hmore after)
  leads hcons after := by
    rw [List.append_assoc]
    cases hcontents : contents with
    | nil =>
        rw [hcontents, List.nil_append] at hcons
        exact (hsecond.leads hcons after).of_derives (hfirst.vanishes hcontents _)
    | cons content rest =>
        rw [hcontents, List.cons_append] at hcons
        rw [← (List.cons.inj hcons).1]
        exact hfirst.leads hcontents _

theorem matched {symbol : Symbol} {content : Content} (hmatches : symbol.Matches content) :
    Opens rules [symbol] [content] where
  vanishes hnil := absurd hnil (List.cons_ne_nil _ _)
  leads hcons after := by
    rw [← (List.cons.inj hcons).1]
    exact ⟨symbol, after, .refl, hmatches⟩

theorem rule {kind : NodeKind} {rule : Rule} (hopens : Opens rules symbols contents)
    (hrule : (kind, rule) ∈ rules) (hsymbols : Rule.Accepts True (· = ·) rule symbols) :
    Opens rules [.node kind] contents := by
  have hderives (after : List Symbol) : Derives rules ([.node kind] ++ after) (symbols ++ after) :=
    Derives.rule [] after .refl hrule hsymbols
  constructor
  · intro hnil after
    exact (hderives after).trans (hopens.vanishes hnil after)
  · intro content more hcons after
    exact (hopens.leads hcons after).of_derives (hderives after)

theorem branches {branches : List Branch}
    (hbelow : ∀ branch ∈ branches, Opens rules [branch.symbol] branch.tree.yield) :
    Opens rules (branches.map (·.symbol)) (contentsOf branches) := by
  induction branches with
  | nil => exact .nil
  | cons branch rest ih =>
      obtain ⟨hbranch, hrest⟩ := List.forall_mem_cons.mp hbelow
      exact hbranch.append (ih hrest)

end Opens

theorem Derivation.opens {symbol : Symbol} {tree : Outline String}
    (hderivation : Derivation rules symbol tree) : Opens rules [symbol] tree.yield := by
  induction hderivation with
  | token kind text => exact .matched rfl
  | word text => exact .matched rfl
  | node hrule hbranches _ ih =>
      rw [yield_node]
      exact (Opens.branches ih).rule hrule (Rule.symbols_of_labels hbranches)

theorem Opens.of_derived {levels : Nat} {branches : List Branch}
    (hderived : ∀ branch ∈ branches, branch.Derived rules levels) :
    Opens rules (branches.map (·.symbol)) (contentsOf branches) := by
  apply Opens.branches
  intro branch hbranch
  exact (hderived branch hbranch).derivation.opens

end Grammar

end LosslessTree
