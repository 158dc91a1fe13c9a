import LosslessTree.Proofs.Parse.Acceptance
import LosslessTree.Proofs.Token.Source

/-!
What separators separate. In the tree of a text without problems the matches of a slot take turns
with its separators, and the first one comes before them. The last one does not need to come behind
them: a repetition may end where a match is expected, and leaves one separator without a match then.
-/

namespace LosslessTree

namespace Grammar

section

variable {α : Type} (fits : Symbol → α → Prop) (symbol : Symbol) (separator : TokenKind)

/-- Separators with a match behind each of them, except perhaps the last. -/
inductive Continued : List α → Prop where
  | nil : Continued []
  | trailing {last : α} (hlast : fits (.token separator) last) : Continued [last]
  | cons {between item : α} {rest : List α} (hbetween : fits (.token separator) between)
      (hitem : fits symbol item) (hrest : Continued rest) : Continued (between :: item :: rest)

inductive Listed : List α → Prop where
  | nil : Listed []
  | cons {item : α} {rest : List α} (hitem : fits symbol item)
      (hrest : Continued fits symbol separator rest) : Listed (item :: rest)

end

section

variable {α : Type} {fits : Symbol → α → Prop} {symbol : Symbol} {separator : TokenKind}
  {slot : Slot} {items : List α}

/-- Repeated matches of one symbol take turns with separators, from where a match may begin and from
behind one. -/
theorem listed_of_repeats (hpattern : slot.pattern = .choice [symbol])
    (hseparator : slot.separator = some separator) {expecting : Bool} {count : Nat}
    (hrepeats : slot.Repeats True fits expecting count items) :
    (expecting = true → Listed fits symbol separator items) ∧
      (expecting = false → Continued fits symbol separator items) := by
  induction hrepeats with
  | stop => exact ⟨fun _ => .nil, fun _ => .nil⟩
  | item hitems _ ih =>
      rw [hpattern] at hitems
      rw [hseparator] at ih
      rcases hitems with ⟨other, hother, item, hitem, rfl⟩ | ⟨hwhole, -⟩
      · rw [List.mem_singleton.mp hother] at hitem
        exact ⟨fun _ => .cons hitem (ih.2 rfl), fun hfalse => nomatch hfalse⟩
      · exact absurd trivial hwhole
  | separator hkind hitem _ ih =>
      obtain rfl := Option.some.inj (hseparator.symm.trans hkind)
      refine ⟨fun hfalse => (nomatch hfalse), fun _ => ?_⟩
      cases ih.1 rfl with
      | nil => exact .trailing hitem
      | cons hnext hrest => exact .cons hitem hnext hrest

theorem Slot.Repeats.ne_nil (hpattern : slot.pattern = .choice [symbol]) {count : Nat}
    (hcount : 0 < count) (hrepeats : slot.Repeats True fits true count items) : items ≠ [] := by
  cases hrepeats with
  | stop => exact absurd hcount (Nat.lt_irrefl 0)
  | item hitems _ =>
      rw [hpattern] at hitems
      rcases hitems with ⟨other, -, item, -, rfl⟩ | ⟨hwhole, -⟩
      · exact List.cons_ne_nil _ _
      · exact absurd trivial hwhole

theorem Slot.Accepts.listed (hpattern : slot.pattern = .choice [symbol])
    (hseparator : slot.separator = Option.some separator)
    (hmultiplicity : slot.multiplicity.isRepeated = true)
    (haccepts : slot.Accepts True fits items) :
    Listed fits symbol separator items ∧ (slot.multiplicity = .oneOrMore → items ≠ []) := by
  obtain ⟨count, hcount, hrepeats⟩ := haccepts.exists_repeats hmultiplicity
  refine ⟨(listed_of_repeats hpattern hseparator hrepeats).1 rfl, fun hone => ?_⟩
  exact hrepeats.ne_nil hpattern (hcount hone trivial)

end

/-- A slot with a separator repeats a single symbol, and its rule is that of a kind that is not
empty. -/
theorem standard_separated : ∀ entry ∈ Standard.rules, ∀ slot ∈ entry.2, slot.separator ≠ none →
    (∃ symbol ∈ slot.pattern.symbols, slot.pattern = .choice [symbol]) ∧
      slot.multiplicity.isRepeated = true ∧
        ((Rules.analyse Standard.rules).facts entry.1).nullable = false := by
  decide +kernel

theorem exists_construct {kind : NodeKind} {rule : Rule} (hrule : (kind, rule) ∈ Standard.rules) :
    ∃ construct, kind = .construct construct := by
  obtain ⟨entry, -, heq⟩ := List.mem_map.mp hrule
  exact ⟨entry.1, (congrArg Prod.fst heq).symm⟩

end Grammar

open Grammar

namespace Parse

section

variable {session : Session} {rules : Rules} {start : NodeKind} {shapes : List Shape} {node : Node}

/-- In a parse without reports every node but the leaves conforms to its rule. -/
theorem Traced.conforms (htraced : Traced session start shapes [])
    (hbuild : build rules = .ok session.grammar) (hsound : session.grammar.Sound)
    (hfinal : session.stream.final.kind = .eof) (hreuse : session.reuse = false)
    (hgrouped : session.stream.Grouped)
    (hkinds : ∀ kind, session.grammar.Mentions kind → kind.isTrivia = false)
    (hstart : session.grammar.contains start = true)
    (hnode : node ∈ (Shape.rootOf session.stream start shapes).descendants)
    (hcomposite : node.isToken = false) : node.Conforms rules session.grammar := by
  obtain ⟨production, hproduction⟩ := Option.isSome_iff_exists.mp hstart
  obtain ⟨haccepts, hbelow⟩ := htraced.accepts hsound hfinal hreuse hproduction
  rw [Node.descendants_eq] at hnode
  rcases List.mem_cons.mp hnode with heq | hchild
  · subst heq
    exact node_conforms hbuild hproduction haccepts
      (significant_rootOf hgrouped hkinds htraced.covers start)
  · rw [Shape.rootOf, Node.around, Node.children_mk, List.flatMap_append] at hchild
    rcases List.mem_append.mp hchild with hleaf | hnodes
    · rw [isToken_of_leaf hleaf] at hcomposite
      cases hcomposite
    · exact descendants_conform hbuild hgrouped hkinds htraced.covers hbelow hnodes hcomposite

end

variable {settings : Settings} {start : NodeKind} {text : String} {parsed : Parsed} {node : Node}

theorem conforms_of_parseText (hparse : parseText settings start text = .ok parsed)
    (hproblems : parsed.problems = []) (hnode : node ∈ parsed.tree.root.descendants)
    (hcomposite : node.isToken = false) : node.Conforms Standard.rules standard := by
  have hkinds : ∀ kind, standard.Mentions kind → kind.isTrivia = false := by
    intro kind hkind
    have hmem := (contains_iff build_standard).mp (contains_of_mentions build_standard hkind)
    obtain ⟨entry, hentry, rfl⟩ := List.mem_map.mp hmem
    obtain ⟨construct, heq⟩ := exists_construct hentry
    rw [heq]
    rfl
  obtain ⟨⟨production, hproduction⟩, hsession⟩ := parse_of_parseTokens hparse
  obtain ⟨shapes, reports, problems, htraced, hreports, heq⟩ :=
    parse_eq .standard settings start (tokensOfText_ordered settings text)
  obtain rfl := Except.ok.inj (heq.symm.trans hsession)
  obtain rfl : problems = [] := hproblems
  obtain rfl := reports_eq_nil hreports
  exact htraced.conforms build_standard (sound_of_build build_standard (by decide +kernel))
    (Stream.final_ofTokens _) rfl (Stream.grouped_ofTokens _) hkinds
    (Option.isSome_iff_exists.mpr ⟨production, hproduction⟩) hnode hcomposite

/-- In the tree of a text without problems, the matches of a separated slot take turns with its
separators between what the slots in front of it and behind it take. A match comes first, and at most
one separator has no match behind it. -/
theorem parseText_separates (hparse : parseText settings start text = .ok parsed)
    (hproblems : parsed.problems = []) (hnode : node ∈ parsed.tree.root.descendants)
    {front back : Rule} {slot : Slot}
    (hrule : (node.kind, front ++ slot :: back) ∈ Standard.rules) {separator : TokenKind}
    (hseparator : slot.separator = some separator) :
    ∃ symbol before items after, slot.pattern = .choice [symbol] ∧
      node.significant = before ++ items ++ after ∧
      Rule.Accepts True Symbol.FitsNode front before ∧
      Rule.Accepts True Symbol.FitsNode back after ∧
      Listed Symbol.FitsNode symbol separator items ∧
      (slot.multiplicity = .oneOrMore → items ≠ []) := by
  obtain ⟨⟨symbol, -, hpattern⟩, hmultiplicity, hsolid⟩ := standard_separated _ hrule slot
    (List.mem_append_right _ List.mem_cons_self) (hseparator ▸ Option.some_ne_none _)
  have hcomposite : node.isToken = false := by
    obtain ⟨construct, heq⟩ := exists_construct hrule
    rw [Node.isToken, heq]
    rfl
  have hconforms := conforms_of_parseText hparse hproblems hnode hcomposite
  have hchildren : node.children ≠ [] := by
    intro hnil
    obtain ⟨production, hproduction, hnullable⟩ := hconforms.nullable hnil
    obtain ⟨rule, -, heq⟩ := production_of_rule build_standard hproduction
    rw [heq] at hnullable
    generalize Rules.analyse Standard.rules = table at hsolid hnullable
    exact absurd (hsolid.symm.trans hnullable) Bool.false_ne_true
  obtain ⟨rule, hother, haccepts⟩ := hconforms.accepts hchildren
  rw [rule_unique build_standard hother hrule] at haccepts
  obtain ⟨before, stretch, hsplit, hfront, hstretch⟩ := InOrder.exists_append haccepts
  cases hstretch with
  | cons hitems hback =>
      obtain ⟨hlisted, hsome⟩ := hitems.listed hpattern hseparator hmultiplicity
      exact ⟨symbol, before, _, _, hpattern, by rw [hsplit, List.append_assoc], hfront, hback,
        hlisted, hsome⟩

def fixityFront : Rule :=
  [.oneOf [.token .kwInfix, .token .kwInfixl, .token .kwInfixr], .allOrNone [.token .integer]]

theorem parseText_separates_of_operators :
    ∃ parsed, parseText ⟨32, .none⟩ (.construct .fixityDeclaration) "infixl 5 +,*" = .ok parsed ∧
      parsed.problems = [] ∧
      ∃ symbol before items after,
        (Slot.someSeparated (.node (.construct .operator)) .comma).pattern = .choice [symbol] ∧
        parsed.tree.root.significant = before ++ items ++ after ∧
        Rule.Accepts True Symbol.FitsNode fixityFront before ∧
        Rule.Accepts True Symbol.FitsNode [] after ∧
        Listed Symbol.FitsNode symbol .comma items ∧
        ((Slot.someSeparated (.node (.construct .operator)) .comma).multiplicity = .oneOrMore →
          items ≠ []) := by
  have hclean : (parseText ⟨32, .none⟩ (.construct .fixityDeclaration)
      "infixl 5 +,*").toOption.map (fun parsed => (parsed.problems, parsed.tree.root.kind)) =
        some ([], .construct .fixityDeclaration) := by
    decide +kernel
  cases hparse : parseText ⟨32, .none⟩ (.construct .fixityDeclaration) "infixl 5 +,*" with
  | error error =>
      rw [hparse] at hclean
      cases hclean
  | ok parsed =>
      rw [hparse] at hclean
      obtain ⟨hproblems, hkind⟩ := Prod.mk.inj (Option.some.inj hclean)
      have hrule : (parsed.tree.root.kind, fixityFront ++
          Slot.someSeparated (.node (.construct .operator)) .comma :: []) ∈ Standard.rules := by
        rw [hkind]
        decide +kernel
      exact ⟨parsed, rfl, hproblems, parseText_separates hparse hproblems
        (Node.descendants_eq parsed.tree.root ▸ List.mem_cons_self) hrule rfl⟩

/-- A declaration without problems that ends with a separator: no operator comes behind the comma,
though the operators are the last slot of the rule. -/
theorem exists_separator_trailing :
    (.construct .fixityDeclaration,
        fixityFront ++ [.someSeparated (.node (.construct .operator)) .comma]) ∈ Standard.rules ∧
      (parseText ⟨32, .none⟩ (.construct .fixityDeclaration) "infixl 5 +,").toOption.map
          (fun parsed => (parsed.problems, parsed.tree.root.significant.map (·.kind))) =
        some ([], [.token .kwInfixl, .token .integer, .construct .operator, .token .comma]) := by
  decide +kernel

end Parse

end LosslessTree
