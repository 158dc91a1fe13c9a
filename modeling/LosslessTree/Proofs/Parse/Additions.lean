import LosslessTree.Proofs.Grammar.Conformance
import LosslessTree.Proofs.Parse.Steps

/-!
What steps add to the node under construction, and when it conforms to the grammar. Error shapes
do not count; as long as nothing has been reported there are none, and nothing is missing.
-/

namespace LosslessTree

namespace Grammar

def Symbol.FitsShape (stream : Stream) : Symbol → Shape → Prop
  | .token kind, .token position => (stream.tokenAt position).kind = kind
  | .word text, .token position =>
    (stream.tokenAt position).kind = .varId ∧ (stream.tokenAt position).text = text
  | .node kind, .node other _ _ => other = kind
  | _, _ => False

end Grammar

def Shape.isError : Shape → Bool
  | .error .. => true
  | _ => false

namespace Parse

open Grammar

def proper (shapes : List Shape) : List Shape := shapes.filter (!·.isError)

/-- Nodes conform to their rules, all the way down. So many levels are left for them to nest, and
where none is left they are cut off. -/
inductive Conforms (session : Session) (whole : Prop) : (levels : Nat) → Shape → Prop where
  | token {levels : Nat} (position : Nat) : Conforms session whole levels (.token position)
  | error {levels : Nat} {expected : Lookahead} {position extent : Nat} (hpart : ¬whole) :
      Conforms session whole levels (.error expected position extent)
  | placeholder {levels : Nat} {kind : NodeKind} {position : Nat} (hpart : ¬whole)
      (hkind : session.grammar.Requires kind) :
      Conforms session whole levels (.node kind position [])
  | empty {kind : NodeKind} {position : Nat} (hkind : whole → session.grammar.Nullable kind) :
      Conforms session whole 0 (.node kind position [])
  | cut {kind : NodeKind} {position start extent : Nat} {expected : Lookahead} (hpart : ¬whole) :
      Conforms session whole 0 (.node kind position [.error expected start extent])
  | node {levels : Nat} {kind : NodeKind} {position : Nat} {children : List Shape}
      {production : Production} (hproduction : session.grammar.production? kind = some production)
      (hchildren : Rule.Fills whole (Symbol.FitsShape session.stream) production.rule
        (proper children))
      (hbelow : ∀ child ∈ children, Conforms session whole levels child) :
      Conforms session whole (levels + 1) (.node kind position children)

theorem Conforms.of_child {session : Session} {whole : Prop} {levels : Nat} {kind : NodeKind}
    {position : Nat} {children : List Shape}
    (hconforms : Conforms session whole levels (.node kind position children)) :
    ∀ child ∈ children, Conforms session whole (levels - 1) child := by
  cases hconforms with
  | placeholder => exact fun _ hchild => absurd hchild List.not_mem_nil
  | empty => exact fun _ hchild => absurd hchild List.not_mem_nil
  | cut hpart =>
      intro child hchild
      rw [List.mem_singleton.mp hchild]
      exact .error hpart
  | node _ _ hbelow => exact hbelow

/-- What has been added to a state is accepted, and conforms to the grammar. -/
def Adds (session : Session) (whole : Prop) (levels : Nat) (accepts : List Shape → Prop)
    (before after : State) : Prop :=
  ∃ added, after.built = added.reverse ++ before.built ∧ accepts (proper added) ∧
    ∀ shape ∈ added, Conforms session whole levels shape

variable {session : Session} {whole : Prop} {levels : Nat}

def Single (stream : Stream) (symbol : Symbol) (items : List Shape) : Prop :=
  ∃ item, symbol.FitsShape stream item ∧ items = [item]

namespace Adds

variable {accepts others : List Shape → Prop} {before middle after : State}

theorem imp (hadds : Adds session whole levels accepts before after)
    (himp : ∀ items, accepts items → others items) :
    Adds session whole levels others before after := by
  obtain ⟨added, hbuilt, haccepts, hconforms⟩ := hadds
  exact ⟨added, hbuilt, himp _ haccepts, hconforms⟩

theorem nothing (hbuilt : after.built = before.built) :
    Adds session whole levels (· = []) before after :=
  ⟨[], hbuilt, rfl, fun _ hshape => absurd hshape List.not_mem_nil⟩

theorem one {shape : Shape} (hbuilt : after.built = shape :: before.built)
    (haccepts : accepts (proper [shape])) (hconforms : Conforms session whole levels shape) :
    Adds session whole levels accepts before after := by
  refine ⟨[shape], hbuilt, haccepts, ?_⟩
  intro other hother
  rwa [List.mem_singleton.mp hother]

theorem append {all : List Shape → Prop} (hfirst : Adds session whole levels accepts before middle)
    (hsecond : Adds session whole levels others middle after)
    (hall : ∀ items more, accepts items → others more → all (items ++ more)) :
    Adds session whole levels all before after := by
  obtain ⟨added, hbuilt, haccepts, hconforms⟩ := hfirst
  obtain ⟨more, hmore, hothers, hrest⟩ := hsecond
  refine ⟨added ++ more, ?_, ?_, ?_⟩
  · rw [hmore, hbuilt, List.reverse_append, List.append_assoc]
  · rw [proper, List.filter_append]
    exact hall _ _ haccepts hothers
  · intro shape hshape
    exact (List.mem_append.mp hshape).elim (hconforms shape) (hrest shape)

theorem after_nothing (hfirst : Adds session whole levels (· = []) before middle)
    (hsecond : Adds session whole levels accepts middle after) :
    Adds session whole levels accepts before after :=
  hfirst.append hsecond fun items more hnil hmore => by rwa [hnil, List.nil_append]

theorem then_nothing (hfirst : Adds session whole levels accepts before middle)
    (hsecond : Adds session whole levels (· = []) middle after) :
    Adds session whole levels accepts before after :=
  hfirst.append hsecond fun items more hitems hnil => by rwa [hnil, List.append_nil]

theorem look (state : State) :
    Adds session whole levels (· = []) state (state.look session) := by
  rw [State.look_eq]
  exact nothing rfl

theorem skip (hpart : ¬whole) (state : State) (stop : Lookahead) (complaint : Complaint) :
    Adds session whole levels (· = []) state (state.skip session .actual stop complaint) :=
  one rfl rfl (.error hpart)

theorem after_skip (hpart : ¬whole) (stop : Lookahead) (complaint : Complaint)
    (hadds : Adds session whole levels accepts
      ((before.skip session .actual stop complaint).look session) after) :
    Adds session whole levels accepts before after :=
  (skip hpart before stop complaint).after_nothing ((look _).after_nothing hadds)

theorem missing (hpart : ¬whole) (state : State) (expected : Lookahead) (what : String) :
    Adds session whole levels (· = []) state (state.missing .actual expected what) := by
  by_cases hlast : state.lastReport = some state.position
  · rw [State.missing_of_reported hlast]
    exact nothing rfl
  · rw [State.missing_of_unreported hlast]
    exact one rfl rfl (.error hpart)

theorem bump {state : State} (hahead : state.position < state.horizon) {symbol : Symbol}
    (hfits : symbol.FitsShape session.stream (.token state.position)) :
    Adds session whole levels (Single session.stream symbol) state state.bump := by
  rw [State.bump_of_ahead hahead]
  exact one rfl ⟨_, hfits, rfl⟩ (.token state.position)

theorem nest {state inner : State} {kind : NodeKind}
    (hconforms : Conforms session whole levels (.node kind state.position inner.built.reverse)) :
    Adds session whole levels (Single session.stream (.node kind)) state
      { inner with built := .node kind state.position inner.built.reverse :: state.built } :=
  one rfl ⟨.node kind state.position inner.built.reverse, rfl, rfl⟩ hconforms

end Adds

/-! ## Quiet parsing -/

theorem respected_quiet (session : Session) : Respected session .actual fun before after =>
    after.lastReport = none → before.lastReport = none where
  refl _ := id
  trans hfirst hsecond := hfirst ∘ hsecond
  touch _ _ := id
  bump state hahead := by
    rw [State.bump_of_ahead hahead]
    exact id
  skip _ _ _ _ hquiet := absurd hquiet (Option.some_ne_none _)
  missing state expected what hquiet := by
    by_cases hlast : state.lastReport = some state.position
    · rwa [State.missing_of_reported hlast] at hquiet
    · rw [State.missing_of_unreported hlast] at hquiet
      cases hquiet
  nest _ _ _ _ := id

theorem missing_not_quiet (state : State) (expected : Lookahead) (what : String) :
    (state.missing .actual expected what).lastReport ≠ none := by
  intro hquiet
  by_cases hlast : state.lastReport = some state.position
  · rw [State.missing_of_reported hlast, hlast] at hquiet
    cases hquiet
  · rw [State.missing_of_unreported hlast] at hquiet
    cases hquiet

theorem skip_not_quiet (state : State) (stop : Lookahead) (complaint : Complaint) :
    (state.skip session .actual stop complaint).lastReport ≠ none :=
  Option.some_ne_none _

end Parse

end LosslessTree
