import LosslessTree.Proofs.Parse.Filling
import LosslessTree.Proofs.Parse.Outcome

/-!
A text without problems is one that the grammar has: in the tree of a parse that reports nothing,
the children of each node conform to the rule of its kind.
-/

namespace LosslessTree

namespace Grammar

/-- The nodes that a symbol is matched by: leaves of tokens, and nodes above them. -/
def Symbol.FitsNode : Symbol → Node → Prop
  | .token kind, child => child.kind = .token kind ∧ child.tokenText?.isSome = true
  | .word text, child => child.kind = .token .varId ∧ child.tokenText? = some text
  | .node kind, child => child.kind = kind ∧ child.tokenText? = none

end Grammar

def Node.significant (node : Node) : List Node := node.children.filter (!·.kind.isTrivia)

namespace Shape

open Grammar

variable {stream : Stream} {grammar : Grammar}

/-- The one node of a shape that is no blank or comment. -/
def head (stream : Stream) : Shape → Node
  | token position => .ofToken (stream.tokenAt position)
  | node kind position children =>
    .around kind .none (stream.offsetAt position) (nodesOf stream children)
  | error expected position extent => errorNode stream expected position extent

theorem head_fits {symbol : Symbol} {shape : Shape} (hfits : symbol.FitsShape stream shape) :
    symbol.FitsNode (shape.head stream) := by
  cases symbol with
  | token kind =>
      cases shape with
      | token position => exact ⟨congrArg NodeKind.token hfits, rfl⟩
      | node => cases hfits
      | error => cases hfits
  | word text =>
      cases shape with
      | token position => exact ⟨congrArg NodeKind.token hfits.1, congrArg some hfits.2⟩
      | node => cases hfits
      | error => cases hfits
  | node kind =>
      cases shape with
      | token => cases hfits
      | node other position children => exact ⟨hfits, rfl⟩
      | error => cases hfits

theorem filter_trivia {tokens : List Token} (htokens : ∀ token ∈ tokens, token.isTrivia = true) :
    (tokens.map Node.ofToken).filter (!·.kind.isTrivia) = [] := by
  rw [List.filter_eq_nil_iff]
  intro node hnode
  obtain ⟨token, htoken, heq⟩ := List.mem_map.mp hnode
  subst heq
  have htrivia := htokens token htoken
  simpa [Node.ofToken, NodeKind.isTrivia, Token.isTrivia] using htrivia

theorem splitLast_trivia {words : List Word}
    (hwords : ∀ word ∈ words, ∀ token ∈ word.trivia, token.isTrivia = true) :
    ∀ token ∈ (splitLast words).2, token.isTrivia = true := by
  induction words with
  | nil => exact fun _ htoken => absurd htoken List.not_mem_nil
  | cons word rest ih =>
      obtain ⟨hword, hrest⟩ := List.forall_mem_cons.mp hwords
      cases rest with
      | nil => exact hword
      | cons next rest => exact ih hrest

theorem significant_nodesOf (hgrouped : stream.Grouped)
    (hkinds : ∀ kind, grammar.Mentions kind → kind.isTrivia = false) {shapes : List Shape}
    {reports : List Report} {start stop : Nat}
    (hcovers : Parse.Covers grammar stream.size shapes reports start stop) :
    (nodesOf stream shapes).filter (!·.kind.isTrivia) = shapes.map (head stream) := by
  induction hcovers with
  | nil => rfl
  | @token start _ _ _ hlt _ ih =>
      have hword := Array.getElem?_eq_getElem hlt
      have hmem := Array.getElem_mem hlt
      have htoken := hgrouped.token _ hmem
      rw [nodesOf, nodes, List.filter_append, ih, Stream.between_succ hword, Word.tokens,
        List.map_cons, List.filter_cons_of_pos, filter_trivia (hgrouped.trivia _ hmem),
        List.map_cons, head, Stream.tokenAt_eq hword]
      · rfl
      · simpa [Node.ofToken, NodeKind.isTrivia, Token.isTrivia] using htoken
  | node hkind _ _ _ ih =>
      have htrivia := hkinds _ hkind
      rw [nodesOf, nodes, List.filter_append, ih, List.filter_cons_of_pos, List.map_cons, head]
      · rfl
      · simpa [Node.around] using htrivia
  | @error report _ _ _ hextent _ ih =>
      have hwords : ∀ word ∈ wordsAt stream report.position report.extent, word ∈ stream.words :=
        fun _ => mem_words
      have hafter := splitLast_trivia fun word hword => hgrouped.trivia word (hwords word hword)
      rw [nodesOf, nodes, List.filter_append, ih, List.filter_cons_of_pos, filter_trivia hafter,
        List.map_cons, head]
      · rfl
      · rfl

end Shape

open Grammar

/-- A node with children conforms to the rule of its kind, and one without may be empty. -/
structure Node.Conforms (rules : Rules) (grammar : Grammar) (node : Node) : Prop where
  accepts : node.children ≠ [] → ∃ rule, (node.kind, rule) ∈ rules ∧
    Rule.Accepts True Symbol.FitsNode rule node.significant
  nullable : node.children = [] → grammar.Nullable node.kind

namespace Parse

variable {session : Session} {rules : Rules}

theorem proper_eq_self {levels : Nat} {shapes : List Shape}
    (hconforms : ∀ shape ∈ shapes, Conforms session True levels shape) :
    proper shapes = shapes := by
  apply List.filter_eq_self.mpr
  intro shape hshape
  cases hconforms shape hshape with
  | error hpart => exact absurd trivial hpart
  | _ => rfl

theorem isToken_of_leaf {tokens : List Token} {node : Node}
    (hnode : node ∈ (tokens.map Node.ofToken).flatMap Node.descendants) : node.isToken = true := by
  obtain ⟨leaf, hleaf, hnode⟩ := List.mem_flatMap.mp hnode
  obtain ⟨token, -, heq⟩ := List.mem_map.mp hleaf
  subst heq
  rw [List.mem_singleton.mp hnode]
  rfl

section

variable (hbuild : build rules = .ok session.grammar)

include hbuild

theorem node_conforms {node : Node} {production : Production} {shapes : List Shape}
    (hproduction : session.grammar.production? node.kind = some production)
    (haccepts : Rule.Accepts True (Symbol.FitsShape session.stream) production.rule shapes)
    (hsignificant : node.significant = shapes.map (Shape.head session.stream)) :
    node.Conforms rules session.grammar where
  accepts _ := by
    obtain ⟨rule, hrule, heq⟩ := production_of_rule hbuild hproduction
    rw [heq, rule_productionOf] at haccepts
    have hfits : ∀ (symbol : Symbol) shape, symbol.FitsShape session.stream shape →
        symbol.FitsNode (Shape.head session.stream shape) := fun _ _ => Shape.head_fits
    rw [hsignificant]
    exact ⟨rule, hrule, haccepts.map hfits⟩
  nullable hchildren := by
    have hnil : shapes.map (Shape.head session.stream) = [] := by
      rw [← hsignificant, Node.significant, hchildren]
      rfl
    rw [List.map_eq_nil_iff.mp hnil] at haccepts
    exact nullable_of_accepts_nil hbuild hproduction haccepts

variable (hgrouped : session.stream.Grouped)
  (hkinds : ∀ kind, session.grammar.Mentions kind → kind.isTrivia = false)

include hgrouped hkinds

theorem head_conforms {levels : Nat} {kind : NodeKind} {position : Nat} {children : List Shape}
    {reports : List Report} {stop : Nat}
    (hcovers : Covers session.grammar session.stream.size children reports position stop)
    (hshape : Conforms session True levels (.node kind position children)) :
    (Shape.head session.stream (.node kind position children)).Conforms rules session.grammar := by
  cases hshape with
  | placeholder hpart => exact absurd trivial hpart
  | empty hkind => exact ⟨fun hchildren => absurd rfl hchildren, fun _ => hkind trivial⟩
  | cut hpart => exact absurd trivial hpart
  | node hproduction hfills hbelow =>
      rw [proper_eq_self hbelow] at hfills
      exact node_conforms hbuild hproduction hfills.accepts
        (Shape.significant_nodesOf hgrouped hkinds hcovers)

theorem descendants_conform {levels : Nat} {shapes : List Shape} {reports : List Report}
    {start stop : Nat}
    (hcovers : Covers session.grammar session.stream.size shapes reports start stop)
    (hconforms : ∀ shape ∈ shapes, Conforms session True levels shape) {node : Node}
    (hnode : node ∈ (Shape.nodesOf session.stream shapes).flatMap Node.descendants)
    (hcomposite : node.isToken = false) : node.Conforms rules session.grammar := by
  induction hcovers generalizing levels with
  | nil => cases hnode
  | token _ _ ih =>
      rw [Shape.nodesOf, List.flatMap_append] at hnode
      rcases List.mem_append.mp hnode with hleaf | hrest
      · rw [isToken_of_leaf hleaf] at hcomposite
        cases hcomposite
      · exact ih (List.forall_mem_cons.mp hconforms).2 hrest
  | node hkind hchildren _ ihchildren ihrest =>
      obtain ⟨hshape, hrest⟩ := List.forall_mem_cons.mp hconforms
      rw [Shape.nodesOf, List.flatMap_append] at hnode
      rcases List.mem_append.mp hnode with hfirst | hmore
      · rw [Shape.nodes, List.flatMap_singleton, Node.descendants_eq] at hfirst
        rcases List.mem_cons.mp hfirst with heq | hbelow
        · subst heq
          exact head_conforms hbuild hgrouped hkinds hchildren hshape
        · exact ihchildren hshape.of_child hbelow
      · exact ihrest hrest hmore
  | error _ _ _ =>
      cases (List.forall_mem_cons.mp hconforms).1 with
      | error hpart => exact absurd trivial hpart

end

theorem respected_reported (session : Session) : Respected session .actual fun before after =>
    (before.reports = [] → before.lastReport = none) → after.reports = [] →
      after.lastReport = none where
  refl _ := id
  trans hfirst hsecond hbefore := hsecond (hfirst hbefore)
  touch _ _ := id
  bump state hahead := by
    rw [State.bump_of_ahead hahead]
    exact id
  skip _ _ _ _ _ hreports := absurd hreports (List.cons_ne_nil _ _)
  missing state expected what hbefore hreports := by
    by_cases hlast : state.lastReport = some state.position
    · rw [State.missing_of_reported hlast] at hreports ⊢
      exact hbefore hreports
    · rw [State.missing_of_unreported hlast] at hreports
      cases hreports
  nest _ _ _ _ := id

theorem reports_eq_nil {stream : Stream} {reports : List Report}
    (hproblems : problemsOf stream reports = .ok []) : reports = [] := by
  cases reports with
  | nil => rfl
  | cons report rest =>
      unfold problemsOf at hproblems
      split at hproblems
      · cases hproblems
      · split at hproblems
        · cases hproblems
        · cases hproblems

theorem Traced.fills {whole : Prop} (hsound : session.grammar.Sound)
    (hfinal : session.stream.final.kind = .eof) (hreuse : session.reuse = false)
    {start : NodeKind} {shapes : List Shape} {reports : List Report}
    (htraced : Traced session start shapes reports) {production : Production}
    (hproduction : session.grammar.production? start = some production)
    (hwhole : whole → (run session start).lastReport = none) :
    Rule.Fills whole (Symbol.FitsShape session.stream) production.rule (proper shapes) ∧
      ∀ shape ∈ shapes, Conforms session whole depthLimit shape := by
  obtain ⟨added, hbuilt, hfills, hconforms⟩ := adds_run hsound hfinal hreuse hproduction hwhole
  have hshapes : shapes = added := by
    have hreverse := htraced.built_eq.symm.trans hbuilt
    simpa [State.initial] using hreverse
  subst hshapes
  exact ⟨hfills, hconforms⟩

theorem Traced.accepts (hsound : session.grammar.Sound)
    (hfinal : session.stream.final.kind = .eof) (hreuse : session.reuse = false)
    {start : NodeKind} {shapes : List Shape} (htraced : Traced session start shapes [])
    {production : Production} (hproduction : session.grammar.production? start = some production) :
    Rule.Accepts True (Symbol.FitsShape session.stream) production.rule shapes ∧
      ∀ shape ∈ shapes, Conforms session True depthLimit shape := by
  have hreported := (respected_reported session).run hfinal hreuse start
  have hquiet := hreported (fun _ => rfl) htraced.reports_eq
  obtain ⟨hfills, hconforms⟩ := htraced.fills hsound hfinal hreuse hproduction fun _ => hquiet
  rw [proper_eq_self hconforms] at hfills
  exact ⟨hfills.accepts, hconforms⟩

theorem parse_of_parseTokens {grammar : Grammar} {settings : Settings} {start : NodeKind}
    {tokens : List Token} {parsed : Parsed}
    (hparse : parseTokens grammar settings start tokens = .ok parsed) :
    (∃ production, grammar.production? start = some production) ∧
      (Session.of grammar settings tokens).parse start = .ok parsed := by
  rw [parseTokens_words] at hparse
  split at hparse
  · cases hparse
  · next production hproduction =>
      split at hparse
      · cases hparse
      · next hsession =>
          refine ⟨⟨production, ?_⟩, hsession.trans (congrArg _ (Except.ok.inj hparse))⟩
          unfold Grammar.production at hproduction
          split at hproduction
          · next hfound => rw [hfound, Except.ok.inj hproduction]
          · cases hproduction

theorem significant_rootOf {stream : Stream} (hgrouped : stream.Grouped) {grammar : Grammar}
    (hkinds : ∀ kind, grammar.Mentions kind → kind.isTrivia = false) {shapes : List Shape}
    {reports : List Report} {stop : Nat}
    (hcovers : Covers grammar stream.size shapes reports 0 stop) (start : NodeKind) :
    (Shape.rootOf stream start shapes).significant = shapes.map (Shape.head stream) := by
  have hnodes := Shape.significant_nodesOf hgrouped hkinds hcovers
  rw [Node.significant, Shape.rootOf, Node.around, Node.children_mk, List.filter_append,
    Shape.filter_trivia hgrouped.leading, hnodes, List.nil_append]

def bracketed : Rules :=
  [(.construct .listExpression,
      [.all [.token .leftBracket], .manySeparated (.node (.construct .operator)) .comma,
        .all [.token .rightBracket]]),
    (.construct .operator, [.oneOf [.token .varSym, .token .conSym]])]

def bracketedTokens : List Token :=
  [.covering .leftBracket 0 "[", .covering .varSym 1 "+", .covering .whitespace 2 " ",
    .covering .comma 3 ",", .covering .conSym 4 ":", .covering .comma 5 ",",
    .covering .rightBracket 6 "]"]

/-- In a tree without problems every node conforms to its rule. -/
theorem parseTokens_conforms {grammar : Grammar} (hbuild : build rules = .ok grammar)
    (htokens : ∀ kind, NodeKind.token kind ∉ rules.map (·.1))
    (heof : Symbol.token .eof ∉ Rules.symbols rules) {start : NodeKind} {settings : Settings}
    {tokens : List Token} (hordered : Token.Ordered tokens) {parsed : Parsed}
    (hparse : parseTokens grammar settings start tokens = .ok parsed)
    (hproblems : parsed.problems = []) {node : Node}
    (hnode : node ∈ parsed.tree.root.descendants) (hcomposite : node.isToken = false) :
    node.Conforms rules grammar := by
  have hkinds : ∀ kind, grammar.Mentions kind → kind.isTrivia = false := by
    intro kind hkind
    have hmem := (contains_iff hbuild).mp (contains_of_mentions hbuild hkind)
    cases kind with
    | token kind => exact absurd hmem (htokens kind)
    | _ => rfl
  have hgrouped := Stream.grouped_ofTokens tokens
  obtain ⟨⟨production, hproduction⟩, hsession⟩ := parse_of_parseTokens hparse
  obtain ⟨shapes, reports, problems, htraced, hreports, heq⟩ :=
    parse_eq grammar settings start hordered
  obtain rfl := Except.ok.inj (heq.symm.trans hsession)
  obtain rfl : problems = [] := hproblems
  obtain rfl := reports_eq_nil hreports
  obtain ⟨haccepts, hconforms⟩ := htraced.accepts (sound_of_build hbuild heof)
    (Stream.final_ofTokens tokens) rfl hproduction
  change node ∈ (Shape.rootOf (.ofTokens tokens) start shapes).descendants at hnode
  rw [Node.descendants_eq] at hnode
  rcases List.mem_cons.mp hnode with hroot | hbelow
  · subst hroot
    exact node_conforms hbuild hproduction haccepts
      (significant_rootOf hgrouped hkinds htraced.covers start)
  · rw [Shape.rootOf, Node.around, Node.children_mk, List.flatMap_append] at hbelow
    rcases List.mem_append.mp hbelow with hleaf | hnodes
    · rw [isToken_of_leaf hleaf] at hcomposite
      cases hcomposite
    · exact descendants_conform hbuild hgrouped hkinds htraced.covers hconforms hnodes hcomposite

theorem parseTokens_conforms_of_bracketed :
    ∃ parsed,
      parseTokens (compile bracketed) .default (.construct .listExpression) bracketedTokens =
        .ok parsed ∧
      parsed.problems = [] ∧
      ∀ node ∈ parsed.tree.root.descendants, node.isToken = false →
        node.Conforms bracketed (compile bracketed) := by
  have hordered : Token.Ordered bracketedTokens := by
    unfold Token.Ordered
    decide
  have hclean : (parseTokens (compile bracketed) .default (.construct .listExpression)
      bracketedTokens).toOption.map (·.problems) = some [] := by
    rw [parseTokens_words]
    rfl
  cases hparse : parseTokens (compile bracketed) .default (.construct .listExpression)
      bracketedTokens with
  | error error =>
      rw [hparse] at hclean
      cases hclean
  | ok parsed =>
      rw [hparse] at hclean
      have hproblems : parsed.problems = [] := Option.some.inj hclean
      refine ⟨parsed, rfl, hproblems, fun node hnode hcomposite => ?_⟩
      exact parseTokens_conforms (show build bracketed = _ from rfl) (by simp [bracketed])
        (by decide) hordered hparse hproblems hnode hcomposite

end Parse

end LosslessTree
