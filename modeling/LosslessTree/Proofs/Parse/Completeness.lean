import LosslessTree.Proofs.Grammar.Settled
import LosslessTree.Proofs.Parse.Following

/-!
A text that the grammar has is read as the grammar has it. Where one token of lookahead settles
every choice, parsing the yield of a tree comes to that tree without any report.
-/

namespace LosslessTree

namespace Parse

open Grammar

variable {session : Session} {rules : Rules} {start : NodeKind} {branches : List Branch}
  {after : List Symbol} {recovery : Lookahead} {rest : List Content} {state : State}

section

variable (hbuild : build rules = .ok session.grammar)
  (heof : Symbol.token .eof ∉ Rules.symbols rules) (hsettled : LL1 rules start)
  (hreuse : session.reuse = false) (hfinal : session.stream.final.kind = .eof)
  (hsignificant : session.stream.Significant)

include hbuild heof hsettled hreuse hfinal hsignificant

theorem reads_body {enter : Enter} (hfollows : Follows session rules start levels enter)
    {kind : NodeKind} {rule : Rule} (hrule : (kind, rule) ∈ rules)
    (hbranches : Rule.Accepts True Symbol.Labels rule branches)
    (hbelow : ∀ branch ∈ branches, branch.Derived rules levels) {before : List Symbol}
    (hderives : Derives rules [.node start] (before ++ .node kind :: after))
    (hawaits : Awaits rules after recovery rest)
    (hfaces : state.Faces session (contentsOf branches ++ rest)) :
    Reads session (branches.map (·.tree)) rest state
      (body enter session .actual kind recovery state) := by
  unfold body
  rw [production?_of_rule hbuild hrule]
  have hsymbols := hderives.rule before after hrule (Rule.symbols_of_labels hbranches)
  exact reads_slots hfollows hsettled hreuse hfinal hsignificant heof
    (show (kind, [] ++ rule) ∈ rules from hrule) .nil hbranches hderives
    ⟨hbelow, ⟨before, hsymbols⟩, hawaits, hfaces⟩

theorem follows_node (levels : Nat) : Follows session rules start levels (node session levels) where
  reads {kind tree after recovery rest state} hdue := by
    -- A node takes one of the levels, and none is left only where the tree would be too high.
    induction levels generalizing kind tree after recovery rest state with
    | zero =>
        obtain ⟨hderivation, hheight⟩ := hdue.derived _ List.mem_cons_self
        cases hderivation
        exact absurd hheight (Nat.not_succ_le_zero _)
    | succ levels ih =>
        obtain ⟨hderivation, hheight⟩ := hdue.derived _ List.mem_cons_self
        obtain ⟨before, hderives⟩ := hdue.derives
        have hfaces := hdue.faces
        cases hderivation with
        | @node _ _ branches hrule hbranches hbelow =>
            have hderived := Branch.derived_below hbelow hheight
            rw [contentsOf_cons, contentsOf_nil, List.append_nil, yield_node] at hfaces
            apply Reads.nest
            exact reads_body hbuild heof hsettled hreuse hfinal hsignificant ⟨ih⟩ hrule hbranches
              hderived (by simpa using hderives) hdue.awaits ⟨hfaces.horizon, hfaces.ahead⟩

theorem reads_run {rule : Rule} (hrule : (start, rule) ∈ rules)
    (hbranches : Rule.Accepts True Symbol.Labels rule branches)
    (hbelow : ∀ branch ∈ branches, branch.Derived rules depthLimit)
    (hahead : session.ahead 0 = contentsOf branches) :
    Reads session (branches.map (·.tree)) [] (.initial session) (run session start) := by
  have hawaits : Awaits rules [] (.ofKind .eof) [] := fun _ _ hcons => nomatch hcons
  have hfaces : (State.initial session).Faces session (contentsOf branches ++ []) :=
    ⟨rfl, by rw [List.append_nil]; exact hahead⟩
  have hstart : Derives rules [.node start] ([] ++ .node start :: []) := .refl
  have hbody := reads_body hbuild heof hsettled hreuse hfinal hsignificant
    (follows_node hbuild heof hsettled hreuse hfinal hsignificant depthLimit) hrule hbranches hbelow
    hstart hawaits hfaces
  have hlook := hbody.append (.after_look (.nothing hbody.faces.look))
  have hend := hlook.faces.at_end hfinal
  rw [List.append_nil] at hlook
  unfold run
  dsimp only
  rw [if_pos (by simpa [State.atEnd] using hend)]
  exact hlook

end

/-! ## Whole texts -/

/-- Lists in brackets, of names and of lists. -/
def typeLists : Rules :=
  [(.construct .listType,
      [.all [.token .leftBracket], .manySeparated (.node (.construct .typeTerm)) .comma,
        .all [.token .rightBracket]]),
    (.construct .typeTerm, [.oneOf [.token .conId, .node (.construct .listType)]])]

def nestedTokens : List Token :=
  [.covering .leftBracket 0 "[", .covering .conId 1 "A", .covering .comma 2 ",",
    .covering .whitespace 3 " ", .covering .leftBracket 4 "[", .covering .rightBracket 5 "]",
    .covering .rightBracket 6 "]"]

def emptyList : Outline String :=
  .node (.construct .listType) none [.leaf .leftBracket "[", .leaf .rightBracket "]"]

def nestedTree : Outline String :=
  .node (.construct .listType) none
    [.leaf .leftBracket "[", .node (.construct .typeTerm) none [.leaf .conId "A"],
      .leaf .comma ",", .node (.construct .typeTerm) none [emptyList], .leaf .rightBracket "]"]

def leaf (kind : TokenKind) (text : String) : Branch := ⟨.token kind, .leaf kind text⟩

theorem accepts_leaf (kind : TokenKind) (text : String) :
    (Slot.all [.token kind]).Accepts True Symbol.Labels [leaf kind text] := by
  have hleaf : (Symbol.token kind).Accepts True Symbol.Labels [leaf kind text] :=
    .inl ⟨leaf kind text, rfl, rfl⟩
  exact InOrder.cons hleaf .nil

theorem derivation_list {branches : List Branch} {count : Nat}
    (hrepeats : (Slot.manySeparated (.node (.construct .typeTerm)) .comma).Repeats True
      Symbol.Labels true count branches)
    (hbranches : ∀ branch ∈ branches, Derivation typeLists branch.symbol branch.tree) :
    Derivation typeLists (.node (.construct .listType))
      (.node (.construct .listType) none
        (([leaf .leftBracket "["] ++ (branches ++ ([leaf .rightBracket "]"] ++ []))).map
          Branch.tree)) := by
  have hterms : (Slot.manySeparated (.node (.construct .typeTerm)) .comma).Accepts True
      Symbol.Labels branches := ⟨count, hrepeats⟩
  refine .node List.mem_cons_self (InOrder.cons (accepts_leaf .leftBracket "[")
    (.cons hterms (.cons (accepts_leaf .rightBracket "]") .nil))) ?_
  intro branch hbranch
  simp only [List.mem_append, List.mem_singleton, List.not_mem_nil, or_false] at hbranch
  rcases hbranch with rfl | hbranch | rfl
  · exact .token .leftBracket "["
  · exact hbranches branch hbranch
  · exact .token .rightBracket "]"

theorem derivation_term {branch : Branch}
    (hsymbol : branch.symbol ∈ [.token .conId, .node (.construct .listType)])
    (hbranch : Derivation typeLists branch.symbol branch.tree) :
    Derivation typeLists (.node (.construct .typeTerm))
      (.node (.construct .typeTerm) none [branch.tree]) := by
  have hchoice : (Slot.oneOf [.token .conId, .node (.construct .listType)]).Accepts True
      Symbol.Labels [branch] := .inl ⟨branch.symbol, hsymbol, branch, rfl, rfl⟩
  exact .node (List.mem_cons_of_mem _ List.mem_cons_self) (InOrder.cons hchoice .nil)
    (List.forall_mem_singleton.mpr hbranch)

theorem derivation_nested : Derivation typeLists (.node (.construct .listType)) nestedTree := by
  have hempty : Derivation typeLists (.node (.construct .listType)) emptyList :=
    derivation_list (.stop true) fun _ hbranch => absurd hbranch List.not_mem_nil
  let name : Branch := ⟨.node (.construct .typeTerm),
    .node (.construct .typeTerm) none [.leaf .conId "A"]⟩
  let list : Branch := ⟨.node (.construct .typeTerm),
    .node (.construct .typeTerm) none [emptyList]⟩
  have hname : Derivation typeLists name.symbol name.tree :=
    @derivation_term (leaf .conId "A") List.mem_cons_self (.token .conId "A")
  have hlist : Derivation typeLists list.symbol list.tree :=
    @derivation_term ⟨.node (.construct .listType), emptyList⟩
      (List.mem_cons_of_mem _ List.mem_cons_self) hempty
  have hitem (branch : Branch) (hsymbol : branch.symbol = .node (.construct .typeTerm)) :
      (Pattern.choice [.node (.construct .typeTerm)]).Accepts True Symbol.Labels [branch] :=
    .inl ⟨_, List.mem_cons_self, branch, hsymbol.symm, rfl⟩
  have hrepeats : (Slot.manySeparated (.node (.construct .typeTerm)) .comma).Repeats True
      Symbol.Labels true 2 ([name] ++ leaf .comma "," :: ([list] ++ [])) :=
    .item (hitem name rfl) (.separator rfl rfl (.item (hitem list rfl) (.stop _)))
  refine derivation_list hrepeats fun branch hbranch => ?_
  simp only [List.mem_append, List.mem_cons, List.not_mem_nil, or_false] at hbranch
  rcases hbranch with rfl | rfl | rfl
  · exact hname
  · exact .token .comma ","
  · exact hlist

/-- Where one token of lookahead settles every choice, the tokens of a tree that nests no deeper
than parsing goes are read as this tree, without any problem. -/
theorem parseTokens_complete {grammar : Grammar} (hbuild : build rules = .ok grammar)
    (heof : Symbol.token .eof ∉ Rules.symbols rules) {start : NodeKind}
    (hsettled : LL1 rules start) {tree : Outline String}
    (hderivation : Derivation rules (.node start) tree) (hheight : tree.height ≤ depthLimit + 1)
    (settings : Settings) {tokens : List Token} (hordered : Token.Ordered tokens)
    (hyield : (Token.significant tokens).map Token.content = tree.yield) :
    ∃ parsed, parseTokens grammar settings start tokens = .ok parsed ∧
      parsed.problems = [] ∧ parsed.tree.root.outline id = tree := by
  have hgrouped := Stream.grouped_ofTokens tokens
  obtain ⟨shapes, reports, problems, htraced, hproblems, hparse⟩ :=
    parse_eq grammar settings start hordered
  cases hderivation with
  | @node _ rule branches hrule hbranches hbelow =>
      have hderived := Branch.derived_below hbelow hheight
      have hahead : (Session.of grammar settings tokens).afresh.ahead 0 = contentsOf branches := by
        rw [yield_node, ← Stream.words_ofTokens, List.map_map] at hyield
        exact hyield
      let session := (Session.of grammar settings tokens).afresh
      have hfinal : session.stream.final.kind = .eof := Stream.final_ofTokens tokens
      have hsignificant : session.stream.Significant := Stream.significant_ofTokens tokens
      have hgrammar : build rules = .ok session.grammar := hbuild
      have hreads := reads_run hgrammar heof hsettled rfl hfinal hsignificant hrule hbranches
        hderived hahead
      obtain ⟨read, hread, houtlines⟩ := hreads.built
      obtain rfl : shapes = read := by
        rw [htraced.built_eq] at hread
        simpa [State.initial] using hread
      obtain rfl : reports = [] := by
        have hnone := hreads.reports
        rw [htraced.reports_eq] at hnone
        simpa [State.initial] using hnone
      obtain rfl : [] = problems := Except.ok.inj hproblems
      have hcontains := (contains_iff hbuild).mpr (List.mem_map_of_mem hrule)
      refine ⟨_, parseTokens_eq hcontains settings hparse, rfl, ?_⟩
      have houtline : (Shape.rootOf (.ofTokens tokens) start shapes).outline id = _ :=
        Shape.outline_rootOf hgrouped htraced.covers start
      exact houtline.trans (congrArg _ houtlines)

theorem parseTokens_complete_of_typeLists :
    ∃ parsed,
      parseTokens (compile typeLists) .default (.construct .listType) nestedTokens = .ok parsed ∧
      parsed.problems = [] ∧ parsed.tree.root.outline id = nestedTree :=
  parseTokens_complete (show build typeLists = _ from rfl) (by decide)
    (LL1.of_isSettled (by decide +kernel)) derivation_nested (by decide) .default
    (by unfold Token.Ordered; decide) rfl

end Parse

end LosslessTree
