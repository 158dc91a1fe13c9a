import LosslessTree.Proofs.Node.Outline
import LosslessTree.Proofs.Parse.Nodes

/-!
The outlines of the nodes that shapes stand for. Each shape has one outline, which depends on the
significant tokens of the stream only.
-/

namespace LosslessTree

namespace Shape

variable {α : Type} (stream : Stream) (read : String → α)

mutual

def outline : Shape → Outline α
  | token position => (stream.tokenAt position).outline read
  | node kind _ children => .node kind none (outlines children)
  | error expected position extent =>
    .node .error (some expected)
      ((wordsAt stream position extent).map fun word => word.token.outline read)

def outlines : List Shape → List (Outline α)
  | [] => []
  | shape :: rest => outline shape :: outlines rest

end

variable {stream} {read}

theorem outlines_eq_map (shapes : List Shape) :
    outlines stream read shapes = shapes.map (outline stream read) := by
  induction shapes with
  | nil => rfl
  | cons shape rest ih => rw [outlines, ih, List.map_cons]

theorem outlines_append (shapes more : List Shape) :
    outlines stream read (shapes ++ more) =
      outlines stream read shapes ++ outlines stream read more := by
  simp only [outlines_eq_map, List.map_append]

theorem filter_trivia_word {word : Word} (htoken : word.token.isTrivia = false)
    (htrivia : ∀ token ∈ word.trivia, token.isTrivia = true) :
    (word.token :: word.trivia).filter (!·.isTrivia) = [word.token] := by
  rw [List.filter_cons_of_pos (by simp [htoken]), List.filter_eq_nil_iff.mpr]
  intro token hmem
  simp [htrivia token hmem]

/-- Without blanks, words that are taken apart at the last one are their tokens. -/
theorem filter_trivia_splitLast {words : List Word}
    (htoken : ∀ word ∈ words, word.token.isTrivia = false)
    (htrivia : ∀ word ∈ words, ∀ token ∈ word.trivia, token.isTrivia = true) :
    (splitLast words).1.filter (!·.isTrivia) = words.map (·.token) ∧
      (splitLast words).2.filter (!·.isTrivia) = [] := by
  induction words with
  | nil => exact ⟨rfl, rfl⟩
  | cons word rest ih =>
      obtain ⟨hfirst, hothers⟩ := List.forall_mem_cons.mp htoken
      obtain ⟨hword, hrest⟩ := List.forall_mem_cons.mp htrivia
      cases rest with
      | nil =>
          refine ⟨?_, List.filter_eq_nil_iff.mpr fun token hmem => by simp [hword token hmem]⟩
          rw [splitLast, List.map_singleton, List.filter_cons_of_pos (by simp [hfirst]),
            List.filter_nil]
      | cons next rest =>
          obtain ⟨hinner, hafter⟩ := ih hothers hrest
          refine ⟨?_, hafter⟩
          change ((word.token :: word.trivia) ++ (splitLast (next :: rest)).1).filter _ = _
          rw [List.filter_append, hinner, filter_trivia_word hfirst hword]
          rfl

theorem outlines_nodesOf (hgrouped : stream.Grouped) {grammar : Grammar} {shapes : List Shape}
    {reports : List Report} {start stop : Nat}
    (hcovers : Parse.Covers grammar stream.size shapes reports start stop) :
    Node.outlines read (nodesOf stream shapes) = outlines stream read shapes := by
  induction hcovers with
  | nil => simp [nodesOf, outlines, Node.outlines]
  | @token start _ _ _ hlt _ ih =>
      have hword := Array.getElem?_eq_getElem hlt
      have hmem := Array.getElem_mem hlt
      rw [nodesOf, Node.outlines_append, ih, nodes, outlines, outline, Node.outlines_ofTokens,
        Stream.between_succ hword, Word.tokens,
        filter_trivia_word (hgrouped.token _ hmem) (hgrouped.trivia _ hmem),
        Stream.tokenAt_eq hword]
      rfl
  | node _ _ _ ihchildren ihrest =>
      rw [nodesOf, Node.outlines_append, ihrest, nodes, outlines, outline, Node.outlines,
        Node.isBlank_around (fun _ => Payload.noConfusion), Node.outline_around, ihchildren,
        Node.outlines]
      rfl
  | @error report _ _ _ _ _ ih =>
      have hwords : ∀ word ∈ wordsAt stream report.position report.extent, word ∈ stream.words :=
        fun _ => mem_words
      obtain ⟨hinner, hafter⟩ := filter_trivia_splitLast
        (fun word hword => hgrouped.token word (hwords word hword))
        (fun word hword => hgrouped.trivia word (hwords word hword))
      rw [nodesOf, Node.outlines_append, ih, nodes, outlines, outline, errorNode, Node.outlines,
        Node.isBlank_around (fun _ => Payload.noConfusion), Node.outline_around_expected,
        Node.outlines_ofTokens, Node.outlines_ofTokens, hinner, hafter, List.map_map]
      rfl

theorem outline_rootOf (hgrouped : stream.Grouped) {grammar : Grammar} {shapes : List Shape}
    {reports : List Report} {stop : Nat}
    (hcovers : Parse.Covers grammar stream.size shapes reports 0 stop) (start : NodeKind) :
    (rootOf stream start shapes).outline read = .node start none (outlines stream read shapes) := by
  have hleading : stream.leading.filter (!·.isTrivia) = [] :=
    List.filter_eq_nil_iff.mpr fun token hmem => by simp [hgrouped.leading token hmem]
  rw [rootOf, Node.outline_around, Node.outlines_append, outlines_nodesOf hgrouped hcovers,
    Node.outlines_ofTokens, hleading]
  rfl

end Shape

end LosslessTree
