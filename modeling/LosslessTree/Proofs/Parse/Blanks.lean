import LosslessTree.Proofs.Node.Surroundings
import LosslessTree.Proofs.Parse.Outcome
import LosslessTree.Proofs.Parse.Outlines

/-!
Where blanks and comments stand in a tree. Those at the front of the text belong to the root; all
others stand beside the significant token in front of them. Only the last token of an error node
has its blanks outside of it, so that an error node covers nothing but what did not fit. Wherever
the parser takes blanks, it never stops among them, so this can be seen on the words that it comes to.
-/

namespace LosslessTree

open Grammar

namespace Cursor

def leaves (cursor : Cursor) : List Cursor :=
  cursor.descendants.filter (·.focus.tokenText?.isSome)

/-- Nothing but blanks and comments stands behind it in its parent. -/
def isLast (cursor : Cursor) : Bool :=
  match cursor.above with
  | [] => true
  | (position, parent) :: _ => (parent.children.drop (position + 1)).all (·.kind.isTrivia)

/-- Where blanks belong that follow a significant leaf: beside it, or beside the error node that
it is the last token of. -/
def trailing? (leaf : Cursor) : Option Cursor :=
  match leaf.parent? with
  | some parent => if parent.focus.isError && leaf.isLast then parent.parent? else some parent
  | none => none

/-- Leaves of which the blanks stand where they belong, the first ones at a given place. -/
inductive Attached : Option Cursor → List Cursor → Prop where
  | nil (place : Option Cursor) : Attached place []
  | blank {place : Option Cursor} {leaf : Cursor} {rest : List Cursor}
      (hblank : leaf.kind.isTrivia = true) (hparent : leaf.parent? = place)
      (hrest : Attached place rest) : Attached place (leaf :: rest)
  | token {place : Option Cursor} {leaf : Cursor} {rest : List Cursor}
      (htoken : leaf.kind.isTrivia = false) (hrest : Attached leaf.trailing? rest) :
      Attached place (leaf :: rest)

namespace Attached

variable {place : Option Cursor} {leaf last : Cursor} {leaves more blanks after : List Cursor}

theorem append (hfirst : Attached place leaves) (hsecond : ∀ place, Attached place more) :
    Attached place (leaves ++ more) := by
  induction hfirst with
  | nil place => exact hsecond place
  | blank hblank hparent _ ih => exact .blank hblank hparent ih
  | token htoken _ ih => exact .token htoken ih

theorem ofToken {token : Token} {above : List (Nat × Node)} (htoken : token.isTrivia = false)
    (hrest : Attached (trailing? ⟨.ofToken token, above⟩) leaves) :
    Attached place (⟨.ofToken token, above⟩ :: leaves) :=
  .token htoken hrest

theorem blanks_append (hblanks : ∀ blank ∈ blanks, blank.kind.isTrivia = true)
    (hparents : ∀ blank ∈ blanks, blank.parent? = place) (hmore : Attached place more) :
    Attached place (blanks ++ more) := by
  induction blanks with
  | nil => exact hmore
  | cons blank rest ih =>
      obtain ⟨hblank, hblanks⟩ := List.forall_mem_cons.mp hblanks
      obtain ⟨hparent, hparents⟩ := List.forall_mem_cons.mp hparents
      exact .blank hblank hparent (ih hblanks hparents)

theorem parent?_eq (hattached : Attached place (blanks ++ leaf :: after))
    (hblanks : ∀ blank ∈ blanks, blank.kind.isTrivia = true)
    (hleaf : leaf.kind.isTrivia = true) : leaf.parent? = place := by
  induction blanks with
  | nil =>
      cases hattached with
      | blank _ hparent _ => exact hparent
      | token htoken _ =>
          rw [hleaf] at htoken
          cases htoken
  | cons blank rest ih =>
      obtain ⟨hblank, hrest⟩ := List.forall_mem_cons.mp hblanks
      cases hattached with
      | blank _ _ hattached => exact ih hattached hrest
      | token htoken _ =>
          rw [hblank] at htoken
          cases htoken

theorem behind (hattached : Attached place (leaves ++ last :: after))
    (hlast : last.kind.isTrivia = false) : Attached last.trailing? after := by
  induction leaves generalizing place with
  | nil =>
      cases hattached with
      | blank hblank _ _ =>
          rw [hlast] at hblank
          cases hblank
      | token _ hrest => exact hrest
  | cons _ rest ih =>
      cases hattached with
      | blank _ _ hrest => exact ih hrest
      | token _ hrest => exact ih hrest

end Attached

def leavesFrom (parent : Node) (above : List (Nat × Node)) (position : Nat) (nodes : List Node) :
    List Cursor :=
  (siblingsFrom parent above position nodes).filter (·.focus.tokenText?.isSome)

section

variable (parent : Node) (above : List (Nat × Node)) (position : Nat)

theorem leavesFrom_nil : leavesFrom parent above position [] = [] := rfl

theorem leavesFrom_append (nodes more : List Node) :
    leavesFrom parent above position (nodes ++ more) =
      leavesFrom parent above position nodes
        ++ leavesFrom parent above (position + nodes.length) more := by
  rw [leavesFrom, siblingsFrom_append, List.filter_append]
  rfl

theorem leavesFrom_token (token : Token) (rest : List Node) :
    leavesFrom parent above position (.ofToken token :: rest) =
      ⟨.ofToken token, (position, parent) :: above⟩
        :: leavesFrom parent above (position + 1) rest := rfl

theorem leavesFrom_around {kind : NodeKind} {payload : Payload}
    (hpayload : ∀ text, payload ≠ .text text) (offset : Nat) (children rest : List Node) :
    leavesFrom parent above position (.around kind payload offset children :: rest) =
      leavesFrom (.around kind payload offset children) ((position, parent) :: above) 0 children
        ++ leavesFrom parent above (position + 1) rest := by
  have hself : (Node.around kind payload offset children).tokenText?.isSome = false := by
    cases payload with
    | text text => exact absurd rfl (hpayload text)
    | none => rfl
    | expected set => rfl
  rw [leavesFrom, siblingsFrom, List.filter_append, descendantsFrom_eq,
    List.filter_cons_of_neg (by simp [hself])]
  rfl

theorem leaves_of_blanks {tokens : List Token} (htokens : ∀ token ∈ tokens, token.isTrivia = true) :
    (∀ blank ∈ leavesFrom parent above position (tokens.map .ofToken),
      blank.kind.isTrivia = true) ∧
    ∀ blank ∈ leavesFrom parent above position (tokens.map .ofToken),
      blank.parent? = some ⟨parent, above⟩ := by
  induction tokens generalizing position with
  | nil => exact ⟨fun _ hblank => (nomatch hblank), fun _ hblank => (nomatch hblank)⟩
  | cons token rest ih =>
      obtain ⟨htoken, hrest⟩ := List.forall_mem_cons.mp htokens
      obtain ⟨hblanks, hparents⟩ := ih (position + 1) hrest
      rw [List.map_cons, leavesFrom_token]
      exact ⟨List.forall_mem_cons.mpr ⟨htoken, hblanks⟩, List.forall_mem_cons.mpr ⟨rfl, hparents⟩⟩

end

section

variable {parent : Node} {above : List (Nat × Node)} {position : Nat} {token : Token}

theorem trailing?_of_proper (hparent : parent.isError = false) :
    trailing? ⟨.ofToken token, (position, parent) :: above⟩ = some ⟨parent, above⟩ := by
  simp [trailing?, parent?, hparent]

theorem trailing?_of_last {outer : Node} {index : Nat} (hparent : parent.isError = true)
    (hlast : (parent.children.drop (position + 1)).all (·.kind.isTrivia) = true) :
    trailing? ⟨.ofToken token, (position, parent) :: (index, outer) :: above⟩ =
      some ⟨outer, above⟩ := by
  simp only [trailing?, parent?, isLast, hparent, hlast, Bool.and_self, if_true]

theorem trailing?_of_inner
    (hinner : (parent.children.drop (position + 1)).all (·.kind.isTrivia) = false) :
    trailing? ⟨.ofToken token, (position, parent) :: above⟩ = some ⟨parent, above⟩ := by
  simp only [trailing?, parent?, isLast, hinner, Bool.and_false, Bool.false_eq_true, if_false]

end

end Cursor

namespace Shape

open Cursor

variable {stream : Stream} {grammar : Grammar} {shapes : List Shape} {reports : List Report}
  {start stop : Nat} {parent : Node} {above : List (Nat × Node)}

theorem attached_word {word : Word} (htoken : word.token.isTrivia = false)
    (htrivia : ∀ token ∈ word.trivia, token.isTrivia = true) (hparent : parent.isError = false)
    (position : Nat) (place : Option Cursor) :
    Attached place (leavesFrom parent above position (word.tokens.map .ofToken)) := by
  obtain ⟨hblanks, hparents⟩ := leaves_of_blanks parent above (position + 1) htrivia
  rw [Word.tokens, List.map_cons, leavesFrom_token]
  apply Attached.ofToken htoken
  rw [trailing?_of_proper hparent, ← List.append_nil (leavesFrom _ _ _ _)]
  exact .blanks_append hblanks hparents (.nil _)

/-- Blanks between the words of an error node stand in it, and those behind its last word beside
it. -/
theorem attached_splitLast {error : Node} (herror : error.isError = true) {words : List Word}
    (htokens : ∀ word ∈ words, word.token.isTrivia = false)
    (htrivia : ∀ word ∈ words, ∀ token ∈ word.trivia, token.isTrivia = true) {front : List Node}
    (hchildren : error.children = front ++ (splitLast words).1.map .ofToken)
    (position next : Nat) (place : Option Cursor) :
    Attached place (leavesFrom error ((position, parent) :: above) front.length
        ((splitLast words).1.map .ofToken)
      ++ leavesFrom parent above next ((splitLast words).2.map .ofToken)) := by
  induction words generalizing front place with
  | nil => exact .nil place
  | cons word rest ih =>
      obtain ⟨htoken, htokens⟩ := List.forall_mem_cons.mp htokens
      obtain ⟨hword, htrivia⟩ := List.forall_mem_cons.mp htrivia
      cases rest with
      | nil =>
          obtain ⟨hblanks, hparents⟩ := leaves_of_blanks parent above next hword
          have hlast : (error.children.drop (front.length + 1)).all (·.kind.isTrivia) = true := by
            rw [hchildren, ← List.drop_drop, List.drop_left, List.drop_one]
            rfl
          rw [splitLast, List.map_cons, leavesFrom_token, List.map_nil, leavesFrom_nil,
            List.singleton_append]
          apply Attached.ofToken htoken
          rw [trailing?_of_last herror hlast, ← List.append_nil (leavesFrom parent _ _ _)]
          exact .blanks_append hblanks hparents (.nil _)
      | cons second rest =>
          obtain ⟨hblanks, hparents⟩ :=
            leaves_of_blanks error ((position, parent) :: above) (front.length + 1) hword
          have hdrop : error.children.drop (front.length + 1) =
              (word.trivia ++ (splitLast (second :: rest)).1).map .ofToken := by
            rw [hchildren, ← List.drop_drop, List.drop_left, List.drop_one]
            rfl
          have hsecond : second.token ∈ (splitLast (second :: rest)).1 :=
            List.mem_of_head? (splitLast_head? (second :: rest))
          have hinner : (error.children.drop (front.length + 1)).all (·.kind.isTrivia) = false := by
            rw [hdrop, List.all_eq_false]
            refine ⟨.ofToken second.token, List.mem_map_of_mem
              (List.mem_append_right _ hsecond), ?_⟩
            have hsignificant := htokens second List.mem_cons_self
            simpa [Node.ofToken, NodeKind.isTrivia, Token.isTrivia] using hsignificant
          have hnext : error.children = (front ++ (.ofToken word.token :: word.trivia.map .ofToken))
              ++ (splitLast (second :: rest)).1.map .ofToken := by
            rw [hchildren, List.append_assoc]
            simp [splitLast]
          have hrest := ih htokens htrivia hnext (some ⟨error, (position, parent) :: above⟩)
          change Attached place (leavesFrom _ _ _ (((word.token :: word.trivia)
            ++ (splitLast (second :: rest)).1).map .ofToken) ++ _)
          rw [List.map_append, leavesFrom_append, List.map_cons, leavesFrom_token, List.cons_append,
            List.cons_append, List.append_assoc]
          apply Attached.ofToken htoken
          rw [trailing?_of_inner hinner]
          apply Attached.blanks_append hblanks hparents
          rwa [List.length_append] at hrest

theorem not_isError_around {kind : NodeKind} (hkind : kind ≠ .error) (offset : Nat)
    (children : List Node) : (Node.around kind .none offset children).isError = false :=
  beq_eq_false_iff_ne.mpr hkind

theorem attached_nodesOf (hgrouped : stream.Grouped)
    (hkinds : ∀ kind, grammar.Mentions kind → kind ≠ .error)
    (hcovers : Parse.Covers grammar stream.size shapes reports start stop)
    (hparent : parent.isError = false) (position : Nat) (place : Option Cursor) :
    Attached place (leavesFrom parent above position (nodesOf stream shapes)) := by
  induction hcovers generalizing parent above position place with
  | nil => exact .nil place
  | token hlt _ ih =>
      have hmem := Array.getElem_mem hlt
      rw [nodesOf, nodes, leavesFrom_append,
        Stream.between_succ (Array.getElem?_eq_getElem hlt)]
      apply Attached.append
      · exact attached_word (hgrouped.token _ hmem) (hgrouped.trivia _ hmem) hparent position place
      · exact ih hparent _
  | node hkind _ _ ihchildren ihrest =>
      rw [nodesOf, nodes, List.singleton_append,
        leavesFrom_around _ _ _ (fun _ => Payload.noConfusion)]
      apply Attached.append
      · exact ihchildren (not_isError_around (hkinds _ hkind) _ _) 0 place
      · exact ihrest hparent _
  | @error report _ _ _ _ _ ih =>
      have hwords : ∀ word ∈ wordsAt stream report.position report.extent, word ∈ stream.words :=
        fun _ => mem_words
      rw [nodesOf, nodes, errorNode, List.cons_append,
        leavesFrom_around _ _ _ (fun _ => Payload.noConfusion), leavesFrom_append,
        ← List.append_assoc]
      apply Attached.append
      · exact attached_splitLast rfl (fun word hword => hgrouped.token word (hwords word hword))
          (fun word hword => hgrouped.trivia word (hwords word hword))
          (show _ = [] ++ _ from rfl) _ _ place
      · exact ih hparent _

theorem attached_rootOf (hgrouped : stream.Grouped)
    (hkinds : ∀ kind, grammar.Mentions kind → kind ≠ .error)
    (hcovers : Parse.Covers grammar stream.size shapes reports start stop) {kind : NodeKind}
    (hkind : kind ≠ .error) :
    Attached (some (.ofRoot (rootOf stream kind shapes)))
      (Cursor.ofRoot (rootOf stream kind shapes)).leaves := by
  have hroot : (rootOf stream kind shapes).isError = false := not_isError_around hkind _ _
  obtain ⟨hblanks, hparents⟩ :=
    leaves_of_blanks (rootOf stream kind shapes) [] 0 hgrouped.leading
  have hleaves : (Cursor.ofRoot (rootOf stream kind shapes)).leaves =
      leavesFrom (rootOf stream kind shapes) [] 0
        (stream.leading.map .ofToken ++ nodesOf stream shapes) := rfl
  rw [hleaves, leavesFrom_append]
  apply Attached.blanks_append hblanks hparents
  exact attached_nodesOf hgrouped hkinds hcovers hroot _ _

/-! ## The ends of nodes -/

theorem head?_between (hgrouped : stream.Grouped) (start stop : Nat) :
    ∀ token ∈ (stream.between start stop).head?, token.isTrivia = false := by
  have hwords : ∀ word ∈ (stream.words.extract start stop).toList, word ∈ stream.words := by
    intro word hword
    rw [Array.toList_extract] at hword
    exact Array.mem_def.mpr (List.mem_of_mem_drop (List.mem_of_mem_take hword))
  intro token htoken
  rw [Stream.between] at htoken
  cases hlist : (stream.words.extract start stop).toList with
  | nil =>
      rw [hlist] at htoken
      cases htoken
  | cons word rest =>
      rw [hlist] at htoken hwords
      rw [← Option.some.inj htoken]
      exact hgrouped.token word (hwords word List.mem_cons_self)

theorem tokenText?_of_leaf {tokens : List Token} {node : Node}
    (hnode : node ∈ (tokens.map Node.ofToken).flatMap Node.descendants) :
    node.tokenText? ≠ none := by
  obtain ⟨leaf, hleaf, hnode⟩ := List.mem_flatMap.mp hnode
  obtain ⟨token, -, heq⟩ := List.mem_map.mp hleaf
  subst heq
  rw [List.mem_singleton.mp hnode]
  exact Option.some_ne_none _

theorem significant_head? {tokens : List Token}
    (hhead : ∀ token ∈ tokens.head?, token.isTrivia = false) :
    ∀ leaf ∈ (tokens.map Node.ofToken).head?, leaf.kind.isTrivia = false := by
  intro leaf hleaf
  rw [List.head?_map] at hleaf
  obtain ⟨token, htoken, rfl⟩ := Option.map_eq_some_iff.mp hleaf
  exact hhead token htoken

theorem head?_errorNode (hgrouped : stream.Grouped) (expected : Lookahead)
    (position extent : Nat) :
    ∀ leaf ∈ (errorNode stream expected position extent).leaves.head?,
      leaf.kind.isTrivia = false := by
  rw [leaves_errorNode]
  apply significant_head?
  intro token htoken
  rw [splitLast_head?] at htoken
  obtain ⟨word, hword, rfl⟩ := Option.map_eq_some_iff.mp htoken
  exact hgrouped.token word (mem_words (List.mem_of_head? hword))

theorem head?_leaves (hgrouped : stream.Grouped)
    (hcovers : Parse.Covers grammar stream.size shapes reports start stop)
    (hstart : start ≤ stream.size) {node : Node}
    (hnode : node ∈ (nodesOf stream shapes).flatMap Node.descendants)
    (hinner : node.tokenText? = none) :
    ∀ leaf ∈ node.leaves.head?, leaf.kind.isTrivia = false := by
  induction hcovers with
  | nil => cases hnode
  | token hlt _ ih =>
      rw [nodesOf, nodes, List.flatMap_append] at hnode
      rcases List.mem_append.mp hnode with hleaf | hrest
      · exact absurd hinner (tokenText?_of_leaf hleaf)
      · exact ih hlt hrest
  | node _ hchildren _ ihchildren ihrest =>
      rw [nodesOf, nodes, List.flatMap_append, List.flatMap_singleton,
        Node.descendants_eq] at hnode
      rcases List.mem_append.mp hnode with hself | hrest
      · rcases List.mem_cons.mp hself with heq | hbelow
        · rw [heq, Node.leaves_around (fun _ => Payload.noConfusion),
            leaves_nodesOf hchildren hstart]
          exact significant_head? (head?_between hgrouped _ _)
        · exact ihchildren hstart hbelow
      · exact ihrest (hchildren.stop_le_size hstart) hrest
  | error hextent _ ih =>
      rw [nodesOf, nodes, List.flatMap_append, List.flatMap_cons, Node.descendants_eq] at hnode
      rcases List.mem_append.mp hnode with hfirst | hrest
      · rcases List.mem_append.mp hfirst with hself | hafter
        · rcases List.mem_cons.mp hself with heq | hbelow
          · rw [heq]
            exact head?_errorNode hgrouped _ _ _
          · exact absurd hinner (tokenText?_of_leaf hbelow)
        · exact absurd hinner (tokenText?_of_leaf hafter)
      · exact ih hextent hrest

theorem getLast?_errorNode (hgrouped : stream.Grouped) (expected : Lookahead)
    (position extent : Nat) :
    ∀ leaf ∈ (errorNode stream expected position extent).leaves.getLast?,
      leaf.kind.isTrivia = false := by
  intro leaf hleaf
  rw [leaves_errorNode, List.getLast?_map, splitLast_getLast?, Option.map_map] at hleaf
  obtain ⟨word, hword, rfl⟩ := Option.map_eq_some_iff.mp hleaf
  exact hgrouped.token word (mem_words (List.mem_of_getLast? hword))

end Shape

namespace Parse

variable {rules : Rules} {grammar : Grammar} {start : NodeKind} {tokens : List Token}

/-- Blanks and comments in front of the first significant token are children of the root; all
others stand where the significant token in front of them says. So no node but the root begins with
them, and no error node ends with them. -/
theorem parseTokens_attaches (hbuild : build rules = .ok grammar)
    (herror : NodeKind.error ∉ rules.map (·.1)) (hstart : grammar.contains start = true)
    (settings : Settings) (hordered : Token.Ordered tokens) :
    ∃ parsed, parseTokens grammar settings start tokens = .ok parsed ∧
      (∀ before leaf after,
        (Cursor.ofRoot parsed.tree.root).leaves = before ++ leaf :: after →
          (∀ other ∈ before, other.kind.isTrivia = true) → leaf.kind.isTrivia = true →
            leaf.parent? = some (.ofRoot parsed.tree.root)) ∧
      (∀ before last blanks leaf after,
        (Cursor.ofRoot parsed.tree.root).leaves = before ++ last :: (blanks ++ leaf :: after) →
          last.kind.isTrivia = false → (∀ blank ∈ blanks, blank.kind.isTrivia = true) →
            leaf.kind.isTrivia = true → leaf.parent? = last.trailing?) ∧
      (∀ node ∈ parsed.tree.root.children.flatMap Node.descendants, node.tokenText? = none →
        ∀ leaf ∈ node.leaves.head?, leaf.kind.isTrivia = false) ∧
      ∀ node ∈ parsed.tree.root.errors, ∀ leaf ∈ node.leaves.getLast?,
        leaf.kind.isTrivia = false := by
  have hkinds : ∀ kind, grammar.contains kind = true → kind ≠ .error := by
    intro kind hkind heq
    exact herror (heq ▸ (contains_iff hbuild).mp hkind)
  have hmentions : ∀ kind, grammar.Mentions kind → kind ≠ .error :=
    fun kind hkind => hkinds kind (contains_of_mentions hbuild hkind)
  obtain ⟨shapes, reports, problems, htraced, -, hparse⟩ := parse_eq grammar settings start hordered
  have hgrouped := Stream.grouped_ofTokens tokens
  have hcovers : Covers grammar (Stream.ofTokens tokens).size shapes reports 0
      (Stream.ofTokens tokens).size := htraced.covers
  have hattached := Shape.attached_rootOf hgrouped hmentions hcovers (hkinds start hstart)
  refine ⟨_, parseTokens_eq hstart settings hparse, ?_, ?_, ?_, ?_⟩
  · intro before leaf after hsplit hbefore hleaf
    exact (hsplit ▸ hattached).parent?_eq hbefore hleaf
  · intro before last blanks leaf after hsplit hlast hblanks hleaf
    exact ((hsplit ▸ hattached).behind hlast).parent?_eq hblanks hleaf
  · intro node hnode hinner
    change node ∈ ((Stream.ofTokens tokens).leading.map Node.ofToken
      ++ Shape.nodesOf (.ofTokens tokens) shapes).flatMap Node.descendants at hnode
    rw [List.flatMap_append] at hnode
    rcases List.mem_append.mp hnode with hleaf | hnode
    · exact absurd hinner (Shape.tokenText?_of_leaf hleaf)
    · exact Shape.head?_leaves hgrouped hcovers (Nat.zero_le _) hnode hinner
  · intro node hnode
    change node ∈ (Shape.rootOf (.ofTokens tokens) start shapes).errors at hnode
    rw [errors_rootOf hcovers hmentions (hkinds start hstart)] at hnode
    obtain ⟨report, -, rfl⟩ := List.mem_map.mp hnode
    exact Shape.getLast?_errorNode hgrouped _ _ _

def bracketedType : Rules :=
  [(.construct .listType, [.all [.token .leftBracket], .all [.node (.construct .typeTerm)],
    .all [.token .rightBracket]]),
    (.construct .typeTerm, [.all [.token .varId]])]

/-- Blanks at the front, behind a bracket, in a stretch that does not fit, behind it, and behind a
name. -/
def scatteredBlanks : List Token :=
  [.covering .whitespace 0 " ", .covering .leftBracket 1 "[", .covering .whitespace 2 " ",
    .covering .integer 3 "1", .covering .whitespace 4 " ", .covering .integer 5 "2",
    .covering .whitespace 6 " ", .covering .varId 7 "x", .covering .whitespace 8 " ",
    .covering .rightBracket 9 "]"]

theorem parseTokens_attaches_of_scatteredBlanks :
    ∃ parsed, parseTokens (compile bracketedType) .default (.construct .listType) scatteredBlanks =
        .ok parsed ∧
      parsed.tree.root.children.map (·.leaves.length) = [1, 1, 1, 3, 1, 2, 1] ∧
      (∀ before leaf after,
        (Cursor.ofRoot parsed.tree.root).leaves = before ++ leaf :: after →
          (∀ other ∈ before, other.kind.isTrivia = true) → leaf.kind.isTrivia = true →
            leaf.parent? = some (.ofRoot parsed.tree.root)) ∧
      (∀ before last blanks leaf after,
        (Cursor.ofRoot parsed.tree.root).leaves = before ++ last :: (blanks ++ leaf :: after) →
          last.kind.isTrivia = false → (∀ blank ∈ blanks, blank.kind.isTrivia = true) →
            leaf.kind.isTrivia = true → leaf.parent? = last.trailing?) ∧
      (∀ node ∈ parsed.tree.root.children.flatMap Node.descendants, node.tokenText? = none →
        ∀ leaf ∈ node.leaves.head?, leaf.kind.isTrivia = false) ∧
      ∀ node ∈ parsed.tree.root.errors, ∀ leaf ∈ node.leaves.getLast?,
        leaf.kind.isTrivia = false := by
  obtain ⟨parsed, hparse, hattached⟩ :=
    parseTokens_attaches (show build bracketedType = _ from rfl) (by decide)
      (show (compile bracketedType).contains (.construct .listType) = true by decide) .default
      (show Token.Ordered scatteredBlanks by unfold Token.Ordered; decide)
  have hlengths : (parseTokens (compile bracketedType) .default (.construct .listType)
      scatteredBlanks).toOption.map (·.tree.root.children.map (·.leaves.length)) =
        some [1, 1, 1, 3, 1, 2, 1] := by
    rw [parseTokens_words]
    rfl
  rw [hparse] at hlengths
  exact ⟨parsed, hparse, Option.some.inj hlengths, hattached⟩

end Parse

end LosslessTree
