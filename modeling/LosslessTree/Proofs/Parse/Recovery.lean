import LosslessTree.Proofs.Access.Projection
import LosslessTree.Proofs.Parse.Acceptance

/-!
The shape of recovered trees. Whatever the tokens are, the children of a node fill the slots of its
rule as far as they go, unless the node only stands in for a missing one, or nests too deep. So no
child is there twice that may be there once.
-/

namespace LosslessTree

open Grammar

/-- The children that are no blanks, comments or errors. -/
def Node.proper (node : Node) : List Node := node.significant.filter (!·.isError)

/-- What a node comes to that stands so many levels below the root. -/
inductive Node.Recovered (rules : Rules) (grammar : Grammar) (depth : Nat) (node : Node) :
    Prop where
  /-- Stands in for a missing node. -/
  | placeholder (hchildren : node.children = []) (hkind : grammar.Requires node.kind)
  | empty (hchildren : node.children = []) (hdepth : depth = depthLimit + 1)
  | cut {error : Node} (hsignificant : node.significant = [error]) (herror : error.isError = true)
      (hdepth : depth = depthLimit + 1)
  | filled {rule : Rule} (hrule : (node.kind, rule) ∈ rules)
      (hfills : Rule.Fills False Symbol.FitsNode rule node.proper)

namespace Shape

variable {stream : Stream} {grammar : Grammar}

theorem isError_head (hkinds : ∀ kind, grammar.Mentions kind → kind ≠ .error) {shapes : List Shape}
    {reports : List Report} {start stop : Nat}
    (hcovers : Parse.Covers grammar stream.size shapes reports start stop) :
    ∀ shape ∈ shapes, (shape.head stream).isError = shape.isError := by
  induction hcovers with
  | nil => exact fun _ hshape => absurd hshape List.not_mem_nil
  | token _ _ ih => exact List.forall_mem_cons.mpr ⟨rfl, ih⟩
  | node hkind _ _ _ ih =>
      refine List.forall_mem_cons.mpr ⟨?_, ih⟩
      simpa [head, Node.isError, Node.around, isError] using hkinds _ hkind
  | error _ _ ih => exact List.forall_mem_cons.mpr ⟨rfl, ih⟩

theorem filter_isError_head {shapes : List Shape}
    (hheads : ∀ shape ∈ shapes, (shape.head stream).isError = shape.isError) :
    (shapes.map (head stream)).filter (!·.isError) = (Parse.proper shapes).map (head stream) := by
  rw [List.filter_map, Parse.proper]
  refine congrArg _ (List.filter_congr fun shape hshape => ?_)
  rw [Function.comp_apply, hheads shape hshape]

end Shape

namespace Parse

variable {session : Session} {rules : Rules}

/-- Where the nodes of a tree come from, with their depth. -/
inductive Stands (session : Session) : (depth : Nat) → Node → Prop where
  | leaf {depth : Nat} (token : Token) : Stands session depth (.ofToken token)
  | error {depth : Nat} (expected : Lookahead) (position extent : Nat) :
      Stands session depth (Shape.errorNode session.stream expected position extent)
  | node {depth levels : Nat} {kind : NodeKind} {position stop : Nat} {children : List Shape}
      {reports : List Report} (hkind : session.grammar.Mentions kind)
      (hcovers : Covers session.grammar session.stream.size children reports position stop)
      (hconforms : Conforms session False levels (.node kind position children))
      (hdepth : depth + levels = depthLimit + 1) :
      Stands session depth (Shape.head session.stream (.node kind position children))

theorem stands_of_leaf {depth : Nat} {tokens : List Token} {node : Node}
    (hnode : node ∈ tokens.map Node.ofToken) : Stands session depth node := by
  obtain ⟨token, -, heq⟩ := List.mem_map.mp hnode
  subst heq
  exact .leaf token

theorem stands_of_mem {depth levels : Nat} (hdepth : depth + levels = depthLimit + 1)
    {shapes : List Shape} {reports : List Report} {start stop : Nat}
    (hcovers : Covers session.grammar session.stream.size shapes reports start stop)
    (hconforms : ∀ shape ∈ shapes, Conforms session False levels shape) {node : Node}
    (hnode : node ∈ Shape.nodesOf session.stream shapes) : Stands session depth node := by
  induction hcovers with
  | nil => cases hnode
  | token _ _ ih =>
      rcases List.mem_append.mp hnode with hfirst | hrest
      · exact stands_of_leaf hfirst
      · exact ih (List.forall_mem_cons.mp hconforms).2 hrest
  | node hkind hchildren _ _ ih =>
      obtain ⟨hshape, hothers⟩ := List.forall_mem_cons.mp hconforms
      rcases List.mem_append.mp hnode with hfirst | hrest
      · rw [List.mem_singleton.mp hfirst]
        exact .node hkind hchildren hshape hdepth
      · exact ih hothers hrest
  | error _ _ ih =>
      rcases List.mem_append.mp hnode with hfirst | hrest
      · rcases List.mem_cons.mp hfirst with heq | hafter
        · subst heq
          exact .error _ _ _
        · exact stands_of_leaf hafter
      · exact ih (List.forall_mem_cons.mp hconforms).2 hrest

theorem Stands.of_child {depth : Nat} {node : Node} (hstands : Stands session depth node) :
    ∀ child ∈ node.children, Stands session (depth + 1) child := by
  intro child hchild
  cases hstands with
  | leaf => cases hchild
  | error => exact stands_of_leaf hchild
  | node hkind hcovers hconforms hdepth =>
      change child ∈ Shape.nodesOf _ _ at hchild
      cases hconforms with
      | placeholder => cases hchild
      | empty => cases hchild
      | cut =>
          rw [Shape.nodesOf, Shape.nodesOf, List.append_nil] at hchild
          rcases List.mem_cons.mp hchild with heq | hafter
          · subst heq
            exact .error _ _ _
          · exact stands_of_leaf hafter
      | node _ _ hbelow => exact stands_of_mem (by omega) hcovers hbelow hchild

section

variable (hbuild : build rules = .ok session.grammar) (hgrouped : session.stream.Grouped)
  (htrivia : ∀ kind, session.grammar.Mentions kind → kind.isTrivia = false)
  (hkinds : ∀ kind, session.grammar.Mentions kind → kind ≠ .error)

include hbuild hkinds

theorem recovered_of_fills {depth : Nat} {node : Node} {production : Production}
    {shapes : List Shape} {reports : List Report} {start stop : Nat}
    (hproduction : session.grammar.production? node.kind = some production)
    (hcovers : Covers session.grammar session.stream.size shapes reports start stop)
    (hfills : Rule.Fills False (Symbol.FitsShape session.stream) production.rule (proper shapes))
    (hsignificant : node.significant = shapes.map (Shape.head session.stream)) :
    node.Recovered rules session.grammar depth := by
  obtain ⟨rule, hrule, heq⟩ := production_of_rule hbuild hproduction
  rw [heq, rule_productionOf] at hfills
  have hfits : ∀ (symbol : Symbol) shape, symbol.FitsShape session.stream shape →
      symbol.FitsNode (Shape.head session.stream shape) := fun _ _ => Shape.head_fits
  refine .filled hrule ?_
  rw [Node.proper, hsignificant, Shape.filter_isError_head (Shape.isError_head hkinds hcovers)]
  exact hfills.map hfits

include hgrouped htrivia

theorem Stands.recovered {depth : Nat} {node : Node} (hstands : Stands session depth node)
    (hcomposite : node.isToken = false) (hproper : node.isError = false) :
    node.Recovered rules session.grammar depth := by
  cases hstands with
  | leaf => cases hcomposite
  | error => cases hproper
  | node hkind hcovers hconforms hdepth =>
      have hsignificant := Shape.significant_nodesOf hgrouped htrivia hcovers
      cases hconforms with
      | placeholder _ hrequires => exact .placeholder rfl hrequires
      | empty => exact .empty rfl (by omega)
      | cut => exact .cut hsignificant rfl (by omega)
      | node hproduction hfills _ =>
          exact recovered_of_fills hbuild hkinds hproduction hcovers hfills hsignificant

end

end Parse

namespace Node.Recovered

variable {rules : Rules} {grammar : Grammar} {depth : Nat} {node : Node}

theorem uses (hrecovered : node.Recovered rules grammar depth) {child : Node}
    (hchild : child ∈ node.significant) (htoken : child.isToken = true) :
    ∃ rule, (node.kind, rule) ∈ rules ∧ ∃ slot ∈ rule, slot.Uses Symbol.FitsNode child := by
  have hnone (hchildren : node.children = []) : False := by
    rw [Node.significant, hchildren] at hchild
    cases hchild
  cases hrecovered with
  | placeholder hchildren => exact (hnone hchildren).elim
  | empty hchildren => exact (hnone hchildren).elim
  | cut hsignificant herror =>
      rw [hsignificant, List.mem_singleton] at hchild
      subst hchild
      rw [Node.isError, beq_iff_eq] at herror
      rw [Node.isToken, herror] at htoken
      cases htoken
  | filled hrule hfills =>
      have herror : child.isError = false := by
        cases hkind : child.kind with
        | error =>
            rw [Node.isToken, hkind] at htoken
            cases htoken
        | _ => simp [Node.isError, hkind]
      have hproper : child ∈ node.proper := List.mem_filter.mpr ⟨hchild, by simp [herror]⟩
      exact ⟨_, hrule, hfills.accepts.uses_of_mem hproper⟩

theorem countOf_eq_proper {kind : NodeKind} (htoken : kind.isToken = false)
    (hkind : kind ≠ .error) : node.countOf kind = node.proper.countP (·.kind = kind) := by
  rw [Node.countOf, Node.proper, Node.significant, List.countP_filter, List.countP_filter]
  refine List.countP_congr fun child _ => ?_
  have htrivia : kind.isTrivia = false := by
    cases kind with
    | token => cases htoken
    | _ => rfl
  simp only [Node.isError, Bool.and_eq_true, decide_eq_true_eq, Bool.not_eq_true',
    beq_eq_false_iff_ne]
  constructor
  · intro heq
    rw [heq]
    exact ⟨⟨rfl, hkind⟩, htrivia⟩
  · exact fun heq => heq.1.1

theorem test_fits {kind : NodeKind} (htoken : kind.isToken = false) (symbol : Symbol) (child : Node)
    (hfits : symbol.FitsNode child) :
    decide (child.kind = kind) = true ↔ symbol = .node kind := by
  rw [decide_eq_true_iff]
  cases symbol with
  | token =>
      rw [hfits.1]
      constructor
      · intro heq
        rw [← heq] at htoken
        cases htoken
      · exact fun heq => nomatch heq
  | word =>
      rw [hfits.1]
      constructor
      · intro heq
        rw [← heq] at htoken
        cases htoken
      · exact fun heq => nomatch heq
  | node other =>
      rw [hfits.1]
      exact ⟨congrArg _, Symbol.node.inj⟩

theorem permits_of_filled {kind : NodeKind} (htoken : kind.isToken = false) (hkind : kind ≠ .error)
    {rule : Rule} (hfills : Rule.Fills False Symbol.FitsNode rule node.proper)
    {multiplicity : Multiplicity}
    (haccessor : (AccessorTable.ofRule rule).lookup kind = some multiplicity) :
    multiplicity.Permits (node.countOf kind) := by
  rw [countOf_eq_proper htoken hkind]
  exact permits_of_fills (test_fits htoken) hfills haccessor

theorem countOf_of_nil {kind : NodeKind} (hchildren : node.children = []) :
    node.countOf kind = 0 := by
  rw [Node.countOf, hchildren]
  rfl

theorem countOf_of_cut {kind : NodeKind} (htoken : kind.isToken = false) (hkind : kind ≠ .error)
    {error : Node} (hsignificant : node.significant = [error]) (herror : error.isError = true) :
    node.countOf kind = 0 := by
  have hproper : node.proper = [] := by simp [Node.proper, hsignificant, herror]
  rw [countOf_eq_proper htoken hkind, hproper]
  rfl

section

variable (hbuild : build rules = .ok grammar)
  (htokens : ∀ kind, NodeKind.token kind ∉ rules.map (·.1))
  (herror : NodeKind.error ∉ rules.map (·.1))

include hbuild htokens herror

/-- There are as many children of a kind as its accessor permits, or none where the node stands in
for a missing one or nests too deep. -/
theorem permits (hrecovered : node.Recovered rules grammar depth) {production : Production}
    (hproduction : grammar.production? node.kind = some production) {child : NodeKind}
    {multiplicity : Multiplicity} (haccessor : production.accessor? child = some multiplicity) :
    multiplicity.Permits (node.countOf child) ∨
      node.countOf child = 0 ∧ (grammar.Requires node.kind ∨ depth = depthLimit + 1) := by
  obtain ⟨rule, hrule, heq⟩ := production_of_rule hbuild hproduction
  have hlookup : (AccessorTable.ofRule rule).lookup child = some multiplicity := by
    rwa [heq] at haccessor
  obtain ⟨slot, hslot, hsymbol⟩ := AccessorTable.mem_symbols_of_lookup hlookup
  have hchild := registered_of_symbol hbuild (Rules.mem_symbols hrule hslot hsymbol)
  have hne : child ≠ .error := fun heq => herror (heq ▸ hchild)
  have htoken : child.isToken = false := by
    cases child with
    | token kind => exact absurd hchild (htokens kind)
    | _ => rfl
  cases hrecovered with
  | placeholder hchildren hkind => exact .inr ⟨countOf_of_nil hchildren, .inl hkind⟩
  | empty hchildren hdepth => exact .inr ⟨countOf_of_nil hchildren, .inr hdepth⟩
  | cut hsignificant hcut hdepth =>
      exact .inr ⟨countOf_of_cut htoken hne hsignificant hcut, .inr hdepth⟩
  | filled hother hfills =>
      rw [rule_unique hbuild hother hrule] at hfills
      exact .inl (permits_of_filled htoken hne hfills hlookup)

theorem optional_error {cursor : Cursor} (hrecovered : cursor.focus.Recovered rules grammar depth)
    {projection : Projection} (hview : Projection.of grammar cursor = .ok projection)
    {child : NodeKind} {error : Error} (hoptional : projection.optional child = .error error) :
    error = projection.mismatch child .zeroOrOne := by
  obtain ⟨hcursor, hproduction⟩ := Projection.of_eq_ok hview
  refine Projection.optional_error (fun haccessor => ?_) hoptional
  rw [hcursor]
  rcases hrecovered.permits hbuild htokens herror hproduction haccessor with hcount | ⟨hcount, -⟩
  · exact hcount
  · exact Nat.le_trans (Nat.le_of_eq hcount) (Nat.zero_le 1)

end

end Node.Recovered

namespace Parse

theorem recovered_of_traced {session : Session} {rules : Rules} (hsound : session.grammar.Sound)
    (hfinal : session.stream.final.kind = .eof) (hreuse : session.reuse = false)
    (hbuild : build rules = .ok session.grammar) (hgrouped : session.stream.Grouped)
    (htrivia : ∀ kind, session.grammar.Mentions kind → kind.isTrivia = false)
    (hkinds : ∀ kind, session.grammar.Mentions kind → kind ≠ .error)
    {start : NodeKind} {shapes : List Shape} {reports : List Report}
    (htraced : Traced session start shapes reports) {production : Production}
    (hproduction : session.grammar.production? start = some production) {cursor : Cursor}
    (hcursor : cursor ∈
      (Cursor.ofRoot (Shape.rootOf session.stream start shapes)).descendants)
    (hcomposite : cursor.focus.isToken = false) (hproper : cursor.focus.isError = false) :
    cursor.focus.Recovered rules session.grammar cursor.above.length := by
  obtain ⟨hfills, hconforms⟩ :=
    htraced.fills hsound hfinal hreuse hproduction (fun h => False.elim h)
  let root := Shape.rootOf session.stream start shapes
  -- The root is no shape of its own, and so it is told apart on the way down.
  have hstands : (cursor.above.length = 0 ∧ cursor.focus = root) ∨
      Stands session cursor.above.length cursor.focus := by
    refine Cursor.descendants_induction
      (P := fun depth node => (depth = 0 ∧ node = root) ∨ Stands session depth node)
      (fun depth node hnode child hchild => .inr ?_) (.inl ⟨rfl, rfl⟩) hcursor
    rcases hnode with ⟨hdepth, heq⟩ | hstands
    · subst hdepth
      rw [heq] at hchild
      rcases List.mem_append.mp hchild with hleaf | hnode
      · exact stands_of_leaf hleaf
      · exact stands_of_mem (Nat.add_comm _ _) htraced.covers hconforms hnode
    · exact hstands.of_child child hchild
  rcases hstands with ⟨-, hroot⟩ | hstands
  · rw [hroot]
    exact recovered_of_fills hbuild hkinds hproduction htraced.covers hfills
      (significant_rootOf hgrouped htrivia htraced.covers start)
  · exact hstands.recovered hbuild hgrouped htrivia hkinds hcomposite hproper

section

variable {rules : Rules} {grammar : Grammar} (hbuild : build rules = .ok grammar)
  (htokens : ∀ kind, NodeKind.token kind ∉ rules.map (·.1))
  (herror : NodeKind.error ∉ rules.map (·.1)) (heof : Symbol.token .eof ∉ Rules.symbols rules)
  {start : NodeKind} (hstart : grammar.contains start = true) (settings : Settings)
  {tokens : List Token} (hordered : Token.Ordered tokens)

include hbuild htokens herror heof hstart hordered

theorem exists_recovered :
    ∃ parsed, parseTokens grammar settings start tokens = .ok parsed ∧
      ∀ cursor ∈ (Cursor.ofRoot parsed.tree.root).descendants,
        cursor.focus.isToken = false → cursor.focus.isError = false →
          cursor.focus.Recovered rules grammar cursor.above.length := by
  have hregistered : ∀ kind, grammar.Mentions kind → kind ∈ rules.map (·.1) := fun kind hkind =>
    (contains_iff hbuild).mp (contains_of_mentions hbuild hkind)
  have htrivia : ∀ kind, grammar.Mentions kind → kind.isTrivia = false := by
    intro kind hkind
    cases kind with
    | token kind => exact absurd (hregistered _ hkind) (htokens kind)
    | _ => rfl
  have hkinds : ∀ kind, grammar.Mentions kind → kind ≠ .error := fun kind hkind heq =>
    herror (heq ▸ hregistered kind hkind)
  obtain ⟨production, hproduction⟩ := Option.isSome_iff_exists.mp hstart
  obtain ⟨shapes, reports, problems, htraced, -, hparse⟩ := parse_eq grammar settings start hordered
  refine ⟨_, parseTokens_eq hstart settings hparse, fun cursor hcursor hcomposite hproper => ?_⟩
  exact recovered_of_traced (sound_of_build hbuild heof) (Stream.final_ofTokens tokens) rfl hbuild
    (Stream.grouped_ofTokens tokens) htrivia hkinds htraced hproduction hcursor hcomposite hproper

end

def signatures : Rules :=
  [(.construct .typeSignature,
      [.someSeparated (.node (.construct .qualifiedName)) .comma,
        .all [.token .doubleColon, .node (.construct .typeTerm)]]),
    (.construct .qualifiedName, [.oneOf [.token .varId]]),
    (.construct .typeTerm, [.some [.token .conId]])]

def brokenTokens : List Token :=
  [.covering .varId 0 "f", .covering .comma 1 ",", .covering .integer 2 "1",
    .covering .doubleColon 3 "::"]

/-- In every tree the children of a node fill its rule as far as they go. So the tokens outside of
error nodes are those that the rules ask for, and no child is there twice where there may be one. -/
theorem parseTokens_recovers {rules : Rules} {grammar : Grammar}
    (hbuild : build rules = .ok grammar) (htokens : ∀ kind, NodeKind.token kind ∉ rules.map (·.1))
    (herror : NodeKind.error ∉ rules.map (·.1)) (heof : Symbol.token .eof ∉ Rules.symbols rules)
    {start : NodeKind} (hstart : grammar.contains start = true) (settings : Settings)
    {tokens : List Token} (hordered : Token.Ordered tokens) :
    ∃ parsed, parseTokens grammar settings start tokens = .ok parsed ∧
      ∀ cursor ∈ (Cursor.ofRoot parsed.tree.root).descendants,
        cursor.focus.isToken = false → cursor.focus.isError = false →
          cursor.focus.Recovered rules grammar cursor.above.length ∧
          (∀ child ∈ cursor.focus.significant, child.isToken = true →
            ∃ rule, (cursor.kind, rule) ∈ rules ∧
              ∃ slot ∈ rule, slot.Uses Symbol.FitsNode child) ∧
          ∀ projection, Projection.of grammar cursor = .ok projection → ∀ child error,
            projection.optional child = .error error →
              error = projection.mismatch child .zeroOrOne := by
  obtain ⟨parsed, hparse, hnodes⟩ :=
    exists_recovered hbuild htokens herror heof hstart settings hordered
  refine ⟨parsed, hparse, fun cursor hcursor hcomposite hproper => ?_⟩
  have hrecovered := hnodes cursor hcursor hcomposite hproper
  refine ⟨hrecovered, fun child => hrecovered.uses, fun projection hview child error => ?_⟩
  exact hrecovered.optional_error hbuild htokens herror hview

theorem parseTokens_recovers_of_signatures :
    ∃ parsed,
      parseTokens (compile signatures) .default (.construct .typeSignature) brokenTokens =
        .ok parsed ∧
      ∀ cursor ∈ (Cursor.ofRoot parsed.tree.root).descendants,
        cursor.focus.isToken = false → cursor.focus.isError = false →
          cursor.focus.Recovered signatures (compile signatures) cursor.above.length := by
  obtain ⟨parsed, hparse, hnodes⟩ :=
    parseTokens_recovers (show build signatures = _ from rfl) (by simp [signatures]) (by decide)
      (by decide) (show (compile signatures).contains (.construct .typeSignature) = true by decide)
      .default (show Token.Ordered brokenTokens by unfold Token.Ordered; decide)
  exact ⟨parsed, hparse, fun cursor hcursor hcomposite hproper =>
    (hnodes cursor hcursor hcomposite hproper).1⟩

end Parse

end LosslessTree
