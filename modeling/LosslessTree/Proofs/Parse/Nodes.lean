import LosslessTree.Proofs.Node.Builder
import LosslessTree.Proofs.Parse.Coverage

/-!
The nodes that shapes stand for. Shapes that cover a stretch of a stream have nodes that stand in
order and apart between its ends, so a builder puts the same nodes together without a fault.
-/

namespace LosslessTree

namespace Shape

theorem splitLast_tokens (words : List Word) :
    (splitLast words).1 ++ (splitLast words).2 = words.flatMap Word.tokens := by
  induction words with
  | nil => rfl
  | cons word rest ih =>
      cases rest with
      | nil => simp [splitLast, Word.tokens]
      | cons next rest =>
          rw [List.flatMap_cons, ← ih]
          simp [splitLast, Word.tokens]

variable (stream : Stream)

def wordsAt (position extent : Nat) : List Word :=
  (stream.words.extract position (position + extent)).toList

def errorNode (expected : Lookahead) (position extent : Nat) : Node :=
  .around .error (.expected expected) (stream.offsetAt position)
    ((splitLast (wordsAt stream position extent)).1.map .ofToken)

mutual

/-- The nodes of a shape: its own, and the leaves of the blanks behind it. -/
def nodes : Shape → List Node
  | token position => (stream.between position (position + 1)).map .ofToken
  | node kind position children =>
    [.around kind .none (stream.offsetAt position) (nodesOf children)]
  | error expected position extent =>
    errorNode stream expected position extent
      :: (splitLast (wordsAt stream position extent)).2.map .ofToken

def nodesOf : List Shape → List Node
  | [] => []
  | shape :: rest => nodes shape ++ nodesOf rest

end

variable {stream}

theorem mem_words {position extent : Nat} {word : Word}
    (hword : word ∈ wordsAt stream position extent) : word ∈ stream.words := by
  rw [wordsAt, Array.toList_extract] at hword
  exact Array.mem_def.mpr (List.mem_of_mem_drop (List.mem_of_mem_take hword))

theorem map_span_ofToken (tokens : List Token) :
    (tokens.map Node.ofToken).map Node.span = tokens.map (·.span) := by
  rw [List.map_map]
  rfl

theorem splitLast_apart (hordered : stream.Ordered) {position extent : Nat}
    (hextent : position + extent ≤ stream.size) :
    ∃ middle, Span.Apart (stream.offsetAt position)
        (((splitLast (wordsAt stream position extent)).1.map Node.ofToken).map Node.span) middle ∧
      Span.Apart middle
        (((splitLast (wordsAt stream position extent)).2.map Node.ofToken).map Node.span)
        (stream.offsetAt (position + extent)) := by
  have hapart := hordered.between_apart (Nat.le_add_right position extent) hextent
  have htokens : stream.between position (position + extent) = _ :=
    (splitLast_tokens (wordsAt stream position extent)).symm
  rw [htokens, List.map_append] at hapart
  simp only [map_span_ofToken]
  exact hapart.split

theorem nodesOf_apart (hordered : stream.Ordered) {grammar : Grammar} {shapes : List Shape}
    {reports : List Report} {start stop : Nat}
    (hcovers : Parse.Covers grammar stream.size shapes reports start stop)
    (hstart : start ≤ stream.size) :
    Span.Apart (stream.offsetAt start) ((nodesOf stream shapes).map Node.span)
      (stream.offsetAt stop) := by
  induction hcovers with
  | nil start => exact Nat.le_refl _
  | token hlt _ ih =>
      simp only [nodesOf, nodes, List.map_append, map_span_ofToken]
      exact (hordered.between_apart (Nat.le_succ _) hlt).append (ih hlt)
  | node _ hchildren _ ihchildren ihrest =>
      have hmiddle := hchildren.stop_le_size hstart
      have happart := ihchildren hstart
      simp only [nodesOf, nodes, List.map_append]
      exact (happart.around (Nat.le_refl _) happart.le).append (ihrest hmiddle)
  | error hextent _ ih =>
      obtain ⟨middle, hinner, hafter⟩ := splitLast_apart hordered hextent
      simp only [nodesOf, nodes, List.map_append, List.map_cons]
      exact ((hinner.around (Nat.le_refl _) hinner.le).append hafter).append (ih hextent)

/-! ## Building -/

open Builder

def Yields (before : Builder) (result : Except Fault (List Nat × Builder)) (nodes : List Node) :
    Prop :=
  ∃ ids after, result = .ok (ids, after) ∧ Gains before after ids nodes

theorem build_token (before : Builder) {position : Nat} (hposition : position < stream.size) :
    Yields before (build stream (.token position) before) (nodes stream (.token position)) := by
  have hword := Array.getElem?_eq_getElem hposition
  have hgains := gains_leaves before stream.words[position].tokens
  have hnodes : nodes stream (.token position) =
      stream.words[position].tokens.map .ofToken := by
    rw [nodes, Stream.between_succ hword]
  rw [hnodes]
  exact ⟨_, _, by rw [build, hword]; rfl, hgains⟩

theorem build_node {before : Builder} {children : List Shape} {low high : Nat}
    (hchildren : Yields before (buildList stream children before) (nodesOf stream children))
    (happart : Span.Apart low ((nodesOf stream children).map Node.span) high)
    (kind : NodeKind) (position : Nat) :
    Yields before (build stream (.node kind position children) before)
      (nodes stream (.node kind position children)) := by
  obtain ⟨ids, middle, hbuild, hgains⟩ := hchildren
  obtain ⟨id, after, haround, hlast⟩ :=
    hgains.around happart kind .none (stream.offsetAt position)
  exact ⟨[id], after, by simp only [build, hbuild, haround], hlast⟩

theorem build_error (hordered : stream.Ordered) (before : Builder) (expected : Lookahead)
    {position extent : Nat} (hextent : position + extent ≤ stream.size) :
    Yields before (build stream (.error expected position extent) before)
      (nodes stream (.error expected position extent)) := by
  obtain ⟨middle, happart, -⟩ := splitLast_apart hordered hextent
  have hinner := gains_leaves before (splitLast (wordsAt stream position extent)).1
  obtain ⟨id, last, haround, hlast⟩ :=
    hinner.around happart .error (.expected expected) (stream.offsetAt position)
  have hafter := gains_leaves last (splitLast (wordsAt stream position extent)).2
  refine ⟨_, _, ?_, hlast.append hafter⟩
  simp only [wordsAt] at haround
  simp only [build, if_neg (Nat.not_lt.mpr hextent), haround]
  rfl

theorem buildList_cons {before : Builder} {shape : Shape} {rest : List Shape}
    (hshape : Yields before (build stream shape before) (nodes stream shape))
    (hrest : ∀ middle, Yields middle (buildList stream rest middle) (nodesOf stream rest)) :
    Yields before (buildList stream (shape :: rest) before) (nodesOf stream (shape :: rest)) := by
  obtain ⟨ids, middle, hbuild, hgains⟩ := hshape
  obtain ⟨more, after, hmore, hothers⟩ := hrest middle
  exact ⟨ids ++ more, after, by simp only [buildList, hbuild, hmore], hgains.append hothers⟩

theorem buildList_of_covers (hordered : stream.Ordered) {grammar : Grammar} {shapes : List Shape}
    {reports : List Report} {start stop : Nat}
    (hcovers : Parse.Covers grammar stream.size shapes reports start stop)
    (hstart : start ≤ stream.size) (before : Builder) :
    Yields before (buildList stream shapes before) (nodesOf stream shapes) := by
  induction hcovers generalizing before with
  | nil start => exact ⟨[], before, rfl, .nil before⟩
  | token hlt _ ih => exact buildList_cons (build_token before hlt) (ih hlt)
  | node _ hchildren _ ihchildren ihrest =>
      have happart := nodesOf_apart hordered hchildren hstart
      exact buildList_cons (build_node (ihchildren hstart before) happart _ _)
        (ihrest (hchildren.stop_le_size hstart))
  | error hextent _ ih =>
      exact buildList_cons (build_error hordered before _ hextent) (ih hextent)

def rootOf (stream : Stream) (kind : NodeKind) (shapes : List Shape) : Node :=
  .around kind .none stream.start (stream.leading.map .ofToken ++ nodesOf stream shapes)

theorem toTree_of_covers (hordered : stream.Ordered) {grammar : Grammar} {shapes : List Shape}
    {reports : List Report} {stop : Nat}
    (hcovers : Parse.Covers grammar stream.size shapes reports 0 stop) (kind : NodeKind) :
    toTree stream kind shapes = .ok (.ofRoot (rootOf stream kind shapes)) := by
  have hleading := gains_leaves Builder.empty stream.leading
  obtain ⟨ids, after, hbuild, hgains⟩ := buildList_of_covers hordered hcovers (Nat.zero_le _)
    (Builder.empty.leaves stream.leading).2
  have happart := hordered.leading_apart
  rw [← map_span_ofToken] at happart
  have hapart := happart.append (nodesOf_apart hordered hcovers (Nat.zero_le _))
  rw [← List.map_append] at hapart
  obtain ⟨root, last, haround, hlast⟩ :=
    (hleading.append hgains).around hapart kind .none stream.start
  cases hlast.holds with
  | cons _ hentry _ =>
      have hsize := hlast.size_eq
      simp only [Builder.empty, List.size_toArray, List.length_nil, List.flatMap_singleton,
        Nat.zero_add] at hsize
      simp only [toTree, hbuild, haround, finish, hentry, hsize]
      rfl

end Shape

end LosslessTree
