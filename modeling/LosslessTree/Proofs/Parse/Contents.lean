import LosslessTree.Proofs.Words.Basic
import LosslessTree.Proofs.Node.Descendants
import LosslessTree.Proofs.Parse.Nodes

/-!
What the nodes of a stretch of the stream hold: as leaves all its tokens, and as error nodes those
of its reports. A report makes a problem at the range of its error node.
-/

namespace LosslessTree

def Report.node (stream : Stream) (report : Report) : Node :=
  Shape.errorNode stream report.expected report.position report.extent

namespace Shape

variable {stream : Stream} {grammar : Grammar} {shapes : List Shape} {reports : List Report}
  {start stop : Nat}

theorem leaves_errorNode (expected : Lookahead) (position extent : Nat) :
    (errorNode stream expected position extent).leaves =
      (splitLast (wordsAt stream position extent)).1.map .ofToken := by
  rw [errorNode, Node.leaves_around (fun _ => Payload.noConfusion), Node.leaves_map_ofToken]

/-- The leaves of the nodes are the tokens, each of them once and in order. -/
theorem leaves_nodesOf (hcovers : Parse.Covers grammar stream.size shapes reports start stop)
    (hstart : start ≤ stream.size) :
    (nodesOf stream shapes).flatMap Node.leaves = (stream.between start stop).map .ofToken := by
  induction hcovers with
  | nil start => rw [Stream.between_self]; rfl
  | token hlt hrest ih =>
      rw [nodesOf, nodes, List.flatMap_append, ih hlt, Node.leaves_map_ofToken, ← List.map_append,
        Stream.between_append (Nat.le_succ _) hrest.start_le_stop]
  | node _ hchildren hrest ihchildren ihrest =>
      rw [nodesOf, nodes, List.flatMap_append, List.flatMap_singleton,
        Node.leaves_around (fun _ => Payload.noConfusion), ihchildren hstart,
        ihrest (hchildren.stop_le_size hstart), ← List.map_append,
        Stream.between_append hchildren.start_le_stop hrest.start_le_stop]
  | @error report _ _ _ hextent hrest ih =>
      have htokens : stream.between report.position (report.position + report.extent) = _ :=
        (splitLast_tokens (wordsAt stream report.position report.extent)).symm
      rw [nodesOf, nodes, List.flatMap_append, List.flatMap_cons, leaves_errorNode,
        Node.leaves_map_ofToken, ih hextent, ← List.map_append, ← htokens, ← List.map_append,
        Stream.between_append (Nat.le_add_right _ _) hrest.start_le_stop]

theorem errors_errorNode (expected : Lookahead) (position extent : Nat) :
    (errorNode stream expected position extent).errors =
      [errorNode stream expected position extent] := by
  rw [errorNode, Node.errors_around_error, Node.errors_map_ofToken]

/-- Each report has its error node, and there are no others. -/
theorem errors_nodesOf (hcovers : Parse.Covers grammar stream.size shapes reports start stop)
    (hkinds : ∀ kind, grammar.Mentions kind → kind ≠ .error) :
    (nodesOf stream shapes).flatMap Node.errors = reports.map (·.node stream) := by
  induction hcovers with
  | nil => rfl
  | token _ _ ih =>
      rw [nodesOf, nodes, List.flatMap_append, ih, Node.errors_map_ofToken, List.nil_append]
  | node hkind _ _ ihchildren ihrest =>
      rw [nodesOf, nodes, List.flatMap_append, List.flatMap_singleton,
        Node.errors_around (hkinds _ hkind), ihchildren, ihrest, List.map_append]
  | error _ _ ih =>
      rw [nodesOf, nodes, List.flatMap_append, List.flatMap_cons, errors_errorNode,
        Node.errors_map_ofToken, ih, List.append_nil, List.singleton_append, List.map_cons]
      rfl

/-! ## Ranges of errors -/

theorem splitLast_head? (words : List Word) :
    (splitLast words).1.head? = words.head?.map (·.token) := by
  cases words with
  | nil => rfl
  | cons word rest =>
      cases rest with
      | nil => rfl
      | cons next rest => simp [splitLast]

theorem splitLast_getLast? (words : List Word) :
    (splitLast words).1.getLast? = words.getLast?.map (·.token) := by
  induction words with
  | nil => rfl
  | cons word rest ih =>
      cases rest with
      | nil => rfl
      | cons next rest =>
          have hlast := List.getLast?_eq_some_getLast (List.cons_ne_nil next rest)
          rw [List.getLast?_cons_cons, ← ih]
          rw [hlast] at ih
          simp [splitLast, List.getLast?_cons, ih]

theorem wordsAt_head? (position extent : Nat) :
    (wordsAt stream position (extent + 1)).head? = stream.words[position]? := by
  simp [wordsAt, List.extract, List.head?_take, List.head?_drop]

theorem wordsAt_getLast? {position extent : Nat} (hextent : position + extent < stream.size) :
    (wordsAt stream position (extent + 1)).getLast? = stream.words[position + extent]? := by
  have hword := Array.getElem?_eq_getElem hextent
  simp [wordsAt, List.extract, List.getLast?_take, hword]

/-- The range of a report is that of its error node, whose blanks at the end stand outside. -/
theorem span_of_report (hordered : stream.Ordered) {report : Report}
    (hextent : report.position + report.extent ≤ stream.size) :
    report.span stream = .ok (report.node stream).span := by
  obtain ⟨position, extent, complaint, expected⟩ := report
  obtain ⟨middle, happart, -⟩ := splitLast_apart hordered hextent
  cases extent with
  | zero =>
      have hwords : wordsAt stream position 0 = [] := by simp [wordsAt]
      simp only [Report.span, Report.node, errorNode, hwords]
      rfl
  | succ extent =>
      have hlast : position + extent < stream.size := hextent
      have hfirst : position < stream.size := Nat.lt_of_le_of_lt (Nat.le_add_right _ _) hlast
      have hstartWord := Array.getElem?_eq_getElem hfirst
      have hstopWord := Array.getElem?_eq_getElem hlast
      have hhead := splitLast_head? (wordsAt stream position (extent + 1))
      have hend := splitLast_getLast? (wordsAt stream position (extent + 1))
      rw [wordsAt_head?, hstartWord, Option.map_some, ← Stream.tokenAt_eq hstartWord] at hhead
      rw [wordsAt_getLast? hlast, hstopWord, Option.map_some, ← Stream.tokenAt_eq hstopWord] at hend
      rw [map_span_ofToken] at happart
      have hbetween := happart.between_around (stream.offsetAt position)
        (by rw [List.head?_map, hhead, Option.map_some])
        (by rw [List.getLast?_map, hend, Option.map_some])
      simp only [Report.span, Report.node, errorNode, Node.around, map_span_ofToken, Node.span_mk]
      rw [Stream.offsetAt] at hbetween ⊢
      rw [hbetween]

end Shape

end LosslessTree
