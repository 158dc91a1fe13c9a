import LosslessTree.Proofs.Descent.Refinement
import LosslessTree.Proofs.Parse.Closed
import LosslessTree.Proofs.Parse.Contents

/-!
What a parse comes to, whatever the rules and the tokens are: a tree that holds all tokens, with an
error node for each problem. The only condition on the tokens is that they stand in order.
-/

namespace LosslessTree

namespace Parse

open Grammar

variable {stream : Stream}

theorem ofReport_eq (hordered : stream.Ordered) {report : Report}
    (hextent : report.position + report.extent ≤ stream.size) :
    Problem.ofReport stream report = .ok ⟨(report.node stream).span,
      report.complaint.message (stream.tokenAt report.position), report.expected⟩ := by
  simp only [Problem.ofReport, Shape.span_of_report hordered hextent]

theorem problemsOf_eq (hordered : stream.Ordered) {reports : List Report}
    (hextents : ∀ report ∈ reports, report.position + report.extent ≤ stream.size) :
    ∃ problems, problemsOf stream reports = .ok problems ∧
      problems.map (fun problem => (problem.span, problem.expected)) =
        reports.map fun report => ((report.node stream).span, report.expected) := by
  induction reports with
  | nil => exact ⟨[], rfl, rfl⟩
  | cons report rest ih =>
      obtain ⟨hextent, hrest⟩ := List.forall_mem_cons.mp hextents
      obtain ⟨problems, hproblems, hmap⟩ := ih hrest
      have hproblem := ofReport_eq hordered hextent
      refine ⟨_, by simp only [problemsOf, hproblem, hproblems]; rfl, ?_⟩
      rw [List.map_cons, List.map_cons, hmap]

variable {rules : Rules} {grammar : Grammar} {start : NodeKind} {tokens : List Token}

theorem parse_eq (grammar : Grammar) (settings : Settings) (start : NodeKind)
    (hordered : Token.Ordered tokens) :
    ∃ shapes reports problems,
      Traced (Session.of grammar settings tokens).afresh start shapes reports ∧
      problemsOf (.ofTokens tokens) reports = .ok problems ∧
      (Session.of grammar settings tokens).parse start =
        .ok ⟨.ofRoot (Shape.rootOf (.ofTokens tokens) start shapes), problems⟩ := by
  let session := Session.of grammar settings tokens
  have hfinal : session.afresh.stream.final.kind = .eof := Stream.final_ofTokens tokens
  have hwindow : 0 < session.window := Session.window_pos grammar settings tokens
  have hrun := run_afresh (Stream.final_ofTokens tokens) hwindow start
  have hstream := Stream.ordered_ofTokens hordered
  obtain ⟨shapes, reports, htraced⟩ :=
    exists_traced hfinal (Stream.significant_ofTokens tokens) rfl start
  obtain ⟨problems, hproblems, -⟩ := problemsOf_eq hstream fun _ => htraced.covers.extent_le
  have htree := Shape.toTree_of_covers hstream htraced.covers start
  refine ⟨shapes, reports, problems, htraced, hproblems, ?_⟩
  rw [Session.parse, ← hrun, conclude, htraced.reports_eq, htraced.built_eq, List.reverse_reverse,
    List.reverse_reverse]
  simp only [hproblems, htree, Session.of]

theorem parseTokens_eq (hstart : grammar.contains start = true) (settings : Settings)
    {parsed : Parsed} (hparse : (Session.of grammar settings tokens).parse start = .ok parsed) :
    parseTokens grammar settings start tokens = .ok parsed := by
  obtain ⟨production, hproduction⟩ := Option.isSome_iff_exists.mp hstart
  simp only [parseTokens_words, Grammar.production, hproduction, hparse]

theorem errors_rootOf {shapes : List Shape} {reports : List Report}
    (hcovers : Covers grammar stream.size shapes reports 0 stream.size)
    (hkinds : ∀ kind, grammar.Mentions kind → kind ≠ .error) (hstart : start ≠ .error) :
    (Shape.rootOf stream start shapes).errors = reports.map (·.node stream) := by
  rw [Shape.rootOf, Node.errors_around hstart, List.flatMap_append, Node.errors_map_ofToken,
    Shape.errors_nodesOf hcovers hkinds, List.nil_append]

def leftRecursion : Rules :=
  [(.construct .typeTerm, [.oneOf [.node (.construct .listType), .token .varId]]),
    (.construct .listType, [.all [.node (.construct .typeTerm), .token .comma]])]

def misfitTokens : List Token :=
  [.covering .varId 0 "a", .covering .whitespace 1 " ", .covering .integer 2 "1",
    .covering .comma 3 ","]

/-- The error nodes and the problems are in correspondence, each with its range and with what was
expected, unless a rule makes error nodes of its own. -/
theorem parseTokens_pairs_errors (hbuild : build rules = .ok grammar)
    (herror : NodeKind.error ∉ rules.map (·.1)) (hstart : grammar.contains start = true)
    (settings : Settings) (hordered : Token.Ordered tokens) :
    ∃ parsed, parseTokens grammar settings start tokens = .ok parsed ∧
      parsed.tree.root.errors.map (fun node => (node.span, node.expected?)) =
        parsed.problems.map fun problem => (problem.span, some problem.expected) := by
  have hkinds : ∀ kind, grammar.contains kind = true → kind ≠ .error := by
    intro kind hkind heq
    exact herror (heq ▸ (contains_iff hbuild).mp hkind)
  obtain ⟨shapes, reports, problems, htraced, hproblems, hparse⟩ :=
    parse_eq grammar settings start hordered
  obtain ⟨others, hothers, hmap⟩ :=
    problemsOf_eq (Stream.ordered_ofTokens hordered) fun _ => htraced.covers.extent_le
  obtain rfl : problems = others := Except.ok.inj (hproblems.symm.trans hothers)
  refine ⟨_, parseTokens_eq hstart settings hparse, ?_⟩
  have hcovers : Covers grammar (Stream.ofTokens tokens).size shapes reports 0 _ := htraced.covers
  have herrors := errors_rootOf hcovers
    (fun kind hkind => hkinds kind (contains_of_mentions hbuild hkind)) (hkinds start hstart)
  have hpairs := congrArg (List.map fun pair => (pair.1, some pair.2)) hmap
  rw [List.map_map, List.map_map] at hpairs
  change (Shape.rootOf _ _ _).errors.map _ = _
  rw [herrors, List.map_map]
  exact hpairs.symm

theorem parseTokens_pairs_errors_of_leftRecursion :
    ∃ parsed,
      parseTokens (compile leftRecursion) .default (.construct .typeTerm) misfitTokens =
        .ok parsed ∧
      parsed.tree.root.errors.map (fun node => (node.span, node.expected?)) =
        parsed.problems.map fun problem => (problem.span, some problem.expected) :=
  parseTokens_pairs_errors (show build leftRecursion = _ from rfl) (by decide) (by decide) .default
    (by unfold Token.Ordered; decide)

end Parse

end LosslessTree
