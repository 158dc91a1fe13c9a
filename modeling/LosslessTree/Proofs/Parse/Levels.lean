import LosslessTree.Proofs.Descent.States
import LosslessTree.Proofs.Node.Cursor
import LosslessTree.Proofs.Parse.Outcome

/-!
Parsing comes to an end, and does not nest deeper than its limit. Nodes are cut off at the limit,
where they hold at most an error; an error holds tokens; and tokens hold nothing.
-/

namespace LosslessTree

def Node.Within : (levels : Nat) → Node → Prop
  | 0, node => node.children = []
  | levels + 1, node => ∀ child ∈ node.children, child.Within levels

def Shape.Within : (levels : Nat) → Shape → Prop
  | _, .token _ => True
  | 0, .node .. => False
  | 0, .error .. => False
  | levels + 1, .node _ _ children => ∀ child ∈ children, child.Within levels
  | _ + 1, .error .. => True

namespace Node

theorem within_ofToken (levels : Nat) (token : Token) : (ofToken token).Within levels := by
  cases levels with
  | zero => rfl
  | succ levels => exact fun _ hchild => absurd hchild List.not_mem_nil

theorem within_of_mem_tokens (levels : Nat) {tokens : List Token} {node : Node}
    (hnode : node ∈ tokens.map ofToken) : node.Within levels := by
  obtain ⟨token, -, rfl⟩ := List.mem_map.mp hnode
  exact within_ofToken levels token

theorem path_le_of_within {levels : Nat} {root : Node} (hroot : root.Within levels)
    {cursor : Cursor} (hcursor : cursor ∈ (Cursor.ofRoot root).descendants) :
    cursor.path.length ≤ levels := by
  have hdown : Cursor.Downward fun depth node => ∃ left, depth + left = levels ∧ node.Within left := by
    rintro depth node ⟨left, hleft, hnode⟩ child hchild
    cases left with
    | zero =>
        rw [show node.children = [] from hnode] at hchild
        cases hchild
    | succ left => exact ⟨left, by omega, hnode child hchild⟩
  obtain ⟨left, hleft, -⟩ :=
    Cursor.descendants_induction hdown ⟨levels, Nat.zero_add levels, hroot⟩ hcursor
  rw [Cursor.path, List.length_reverse, List.length_map]
  omega

end Node

namespace Shape

variable {stream : Stream}

theorem mem_nodesOf {shapes : List Shape} {node : Node} (hnode : node ∈ nodesOf stream shapes) :
    ∃ shape ∈ shapes, node ∈ nodes stream shape := by
  induction shapes with
  | nil => cases hnode
  | cons shape rest ih =>
      rcases List.mem_append.mp hnode with hfirst | hothers
      · exact ⟨shape, List.mem_cons_self, hfirst⟩
      · obtain ⟨other, hother, hmem⟩ := ih hothers
        exact ⟨other, List.mem_cons_of_mem _ hother, hmem⟩

theorem within_nodes {levels : Nat} {shape : Shape} (hshape : shape.Within levels) {node : Node}
    (hnode : node ∈ nodes stream shape) : node.Within levels := by
  induction levels generalizing shape node with
  | zero =>
      cases shape with
      | token position => exact Node.within_of_mem_tokens 0 hnode
      | node => cases hshape
      | error => cases hshape
  | succ levels ih =>
      cases shape with
      | token position => exact Node.within_of_mem_tokens _ hnode
      | node kind position children =>
          rw [List.mem_singleton.mp hnode]
          intro child hchild
          obtain ⟨shape, hmem, hnodes⟩ := mem_nodesOf hchild
          exact ih (hshape shape hmem) hnodes
      | error expected position extent =>
          rcases List.mem_cons.mp hnode with rfl | hblank
          · exact fun child hchild => Node.within_of_mem_tokens levels hchild
          · exact Node.within_of_mem_tokens _ hblank

theorem within_rootOf {levels : Nat} {shapes : List Shape}
    (hshapes : ∀ shape ∈ shapes, shape.Within levels) (start : NodeKind) :
    (rootOf stream start shapes).Within (levels + 1) := by
  intro child hchild
  rcases List.mem_append.mp hchild with hleading | hnode
  · exact Node.within_of_mem_tokens levels hleading
  · obtain ⟨shape, hmem, hnodes⟩ := mem_nodesOf hnode
    exact within_nodes (hshapes shape hmem) hnodes

end Shape

namespace Parse

open Grammar

def StaysWithin (levels : Nat) (before after : State) : Prop :=
  (∀ shape ∈ before.built, shape.Within levels) → ∀ shape ∈ after.built, shape.Within levels

variable {levels : Nat}

theorem StaysWithin.push {before after : State} {shape : Shape}
    (hbuilt : after.built = shape :: before.built) (hshape : shape.Within levels) :
    StaysWithin levels before after := by
  intro hbefore
  rw [hbuilt]
  exact List.forall_mem_cons.mpr ⟨hshape, hbefore⟩

theorem StaysWithin.nest {state : State} {kind : NodeKind} {body : State → State}
    (hbody : StaysWithin levels { state with built := [] }
      (body { state with built := [] })) :
    StaysWithin (levels + 1) state (state.nest kind body) := by
  refine .push rfl fun child hchild => ?_
  exact hbody (fun _ hshape => absurd hshape List.not_mem_nil) child (List.mem_reverse.mp hchild)

/-- Errors and tokens need one level, so wherever there is one all steps stay within. -/
theorem kept_within (session : Session) (levels : Nat) :
    Kept session .actual (StaysWithin (levels + 1)) where
  refl _ := id
  trans hfirst hsecond := hsecond ∘ hfirst
  touch _ _ := id
  bump state hahead := .push (congrArg State.built (State.bump_of_ahead hahead)) trivial
  skip _ _ _ _ := .push rfl trivial
  missing state expected what := by
    by_cases hlast : state.lastReport = some state.position
    · rw [State.missing_of_reported hlast]
      exact id
    · rw [State.missing_of_unreported hlast]
      exact .push rfl trivial
  empty _ _ _ := .push rfl fun _ hchild => absurd hchild List.not_mem_nil

variable {session : Session} (hfinal : session.stream.final.kind = .eof)
  (hreuse : session.reuse = false)

include hfinal hreuse

/-- A node with levels left, or one that is cut off, with its error and the token in it. -/
theorem node_within (levels : Nat) {kind : NodeKind} (hkind : session.grammar.Mentions kind)
    (recovery : Lookahead) (state : State) :
    StaysWithin (levels + 2) state (node session levels .actual kind recovery state) := by
  induction levels generalizing kind recovery state with
  | zero => exact .nest ((kept_within session 0).cut hfinal _)
  | succ levels ih =>
      exact .nest ((kept_within session (levels + 1)).body hfinal hreuse ih kind recovery _)

theorem Traced.within {start : NodeKind} {shapes : List Shape} {reports : List Report}
    (htraced : Traced session start shapes reports) :
    ∀ shape ∈ shapes, shape.Within (depthLimit + 2) := by
  have hrun := (kept_within session (depthLimit + 1)).run hfinal hreuse
    (node_within hfinal hreuse depthLimit) start fun _ hshape => absurd hshape List.not_mem_nil
  rw [htraced.built_eq] at hrun
  exact fun shape hshape => hrun shape (List.mem_reverse.mpr hshape)

omit hfinal hreuse

/-- Whatever the grammar is, every parse comes to a tree that is nested no deeper than its limit. It
begins in a state that stands, what it parses leaves it in such a state, and from each of them a
repetition comes to an end by itself. -/
theorem parseTokens_ends {grammar : Grammar} {start : NodeKind}
    (hstart : grammar.contains start = true) (settings : Settings) {tokens : List Token}
    (hordered : Token.Ordered tokens) :
    (∃ parsed, parseTokens grammar settings start tokens = .ok parsed ∧
      ∀ cursor ∈ (Cursor.ofRoot parsed.tree.root).descendants,
        cursor.path.length ≤ depthLimit + 3) ∧
    let session := Descent.Session.of grammar settings tokens
    (Descent.State.entrance session start).Stands session ∧
      ∀ place, grammar.Has place → ∀ levels recovery state, state.Stands session →
        (Descent.slot (Descent.node session levels) session place recovery state).Stands session ∧
          Descent.Repeats (Descent.node session levels) session place recovery
            (recoveryOf place recovery) true false state
            (Descent.matchAll (Descent.node session levels) session place recovery
              (recoveryOf place recovery) (session.tape.size - state.index + 1) true false
              state) := by
  constructor
  · obtain ⟨shapes, reports, problems, htraced, -, hparse⟩ :=
      parse_eq grammar settings start hordered
    refine ⟨_, parseTokens_eq hstart settings hparse, fun cursor hcursor => ?_⟩
    have hwithin := htraced.within (Stream.final_ofTokens tokens) rfl
    exact Node.path_le_of_within (Shape.within_rootOf hwithin start) hcursor
  · have hfinal : (Tape.ofTokens tokens).final.kind = .eof := Stream.final_ofTokens tokens
    have hwindow := Session.window_pos grammar settings tokens
    intro session
    refine ⟨(Descent.mirrors_entrance session start).stands, ?_⟩
    intro place hplace levels recovery state hstands
    exact ⟨hstands.slot hfinal hwindow levels hplace.parts recovery,
      hstands.repeats hfinal hwindow levels hplace.parts recovery _⟩

theorem parseTokens_ends_of_leftRecursion :
    (∃ parsed,
      parseTokens (compile leftRecursion) .default (.construct .typeTerm) misfitTokens =
        .ok parsed ∧
      ∀ cursor ∈ (Cursor.ofRoot parsed.tree.root).descendants,
        cursor.path.length ≤ depthLimit + 3) ∧
    let session := Descent.Session.of (compile leftRecursion) .default misfitTokens
    (Descent.State.entrance session (.construct .typeTerm)).Stands session ∧
      ∀ place, (compile leftRecursion).Has place → ∀ levels recovery state,
        state.Stands session →
        (Descent.slot (Descent.node session levels) session place recovery state).Stands session ∧
          Descent.Repeats (Descent.node session levels) session place recovery
            (recoveryOf place recovery) true false state
            (Descent.matchAll (Descent.node session levels) session place recovery
              (recoveryOf place recovery) (session.tape.size - state.index + 1) true false
              state) :=
  parseTokens_ends (by decide) .default (by unfold Token.Ordered; decide)

end Parse

end LosslessTree
