import LosslessTree.Proofs.Grammar.Brackets
import LosslessTree.Proofs.Parse.Acceptance

/-!
Brackets in shapes. The tokens below a node of a parse without reports open and close brackets in
pairs, so the depth of a token tells how far down it stands at least.
-/

namespace LosslessTree

open TokenKind

def Stream.kinds (stream : Stream) (start stop : Nat) : List TokenKind :=
  (List.range' start (stop - start)).map fun position => (stream.tokenAt position).kind

namespace Stream

variable (stream : Stream)

theorem kinds_self (position : Nat) : stream.kinds position position = [] := by
  simp [kinds]

theorem kinds_cons {start stop : Nat} (hlt : start < stop) :
    stream.kinds start stop = (stream.tokenAt start).kind :: stream.kinds (start + 1) stop := by
  obtain ⟨extent, rfl⟩ : ∃ extent, stop = start + 1 + extent := ⟨stop - (start + 1), by omega⟩
  have hextent : start + 1 + extent - start = extent + 1 := by omega
  simp [kinds, hextent, List.range'_succ]

theorem kinds_append {start middle stop : Nat} (hstart : start ≤ middle) (hstop : middle ≤ stop) :
    stream.kinds start middle ++ stream.kinds middle stop = stream.kinds start stop := by
  obtain ⟨first, rfl⟩ := Nat.exists_eq_add_of_le hstart
  obtain ⟨second, rfl⟩ := Nat.exists_eq_add_of_le hstop
  have hextent : start + first + second - start = first + second := by omega
  rw [kinds, kinds, kinds, hextent, ← List.map_append, Nat.add_sub_cancel_left,
    Nat.add_sub_cancel_left, List.range'_append_1]

theorem mem_kinds {start stop position : Nat} (hstart : start ≤ position)
    (hstop : position < stop) : (stream.tokenAt position).kind ∈ stream.kinds start stop := by
  refine List.mem_map_of_mem (List.mem_range'_1.mpr ⟨hstart, ?_⟩)
  omega

end Stream

namespace Shape

variable (stream : Stream)

mutual

def kinds : Shape → List TokenKind
  | token position => [(stream.tokenAt position).kind]
  | node _ _ children => kindsOf children
  | error _ _ _ => []

def kindsOf : List Shape → List TokenKind
  | [] => []
  | shape :: rest => kinds shape ++ kindsOf rest

end

def IsBalanced : Shape → Prop
  | node _ _ children => walk? 0 (kindsOf stream children) = some 0
  | _ => True

def Lacks (token : TokenKind) (avoiding : List NodeKind) : Shape → Prop
  | node kind _ children => kind ∈ avoiding → token ∉ kindsOf stream children
  | _ => True

variable {stream}

theorem kindsOf_eq_flatMap (shapes : List Shape) :
    kindsOf stream shapes = shapes.flatMap (kinds stream) := by
  induction shapes with
  | nil => rfl
  | cons shape rest ih => rw [kindsOf, ih, List.flatMap_cons]

theorem kindsOf_of_covers {grammar : Grammar} {size start stop : Nat} {shapes : List Shape}
    {reports : List Report} (hcovers : Parse.Covers grammar size shapes reports start stop)
    (hreports : reports = []) : kindsOf stream shapes = stream.kinds start stop := by
  induction hcovers with
  | nil start => exact (stream.kinds_self start).symm
  | token _ hrest ih => rw [kindsOf, ih hreports, stream.kinds_cons hrest.start_le_stop]; rfl
  | node _ hchildren hrest ihchildren ihrest =>
      obtain ⟨hinner, houter⟩ := List.append_eq_nil_iff.mp hreports
      rw [kindsOf, kinds, ihchildren hinner, ihrest houter,
        stream.kinds_append hchildren.start_le_stop hrest.start_le_stop]
  | error => cases hreports

end Shape

namespace Grammar

/-- Below a node whose brackets come in pairs the depth is what the symbol says. -/
theorem Symbol.walk?_of_fits {stream : Stream} {symbol : Symbol} {shape : Shape}
    (hbalanced : shape.IsBalanced stream) (hfits : symbol.FitsShape stream shape)
    {depth after : Nat} (hdepth : symbol.depthAfter? depth = some after) :
    walk? depth (shape.kinds stream) = some after := by
  cases shape with
  | token position =>
      have hkinds : Shape.kinds stream (.token position) = [(stream.tokenAt position).kind] := rfl
      rw [hkinds, walk?_cons]
      cases symbol with
      | token kind =>
          obtain rfl : (stream.tokenAt position).kind = kind := hfits
          rw [show TokenKind.depthAfter? depth _ = some after from hdepth]
          rfl
      | word text =>
          rw [hfits.1, ← Option.some.inj hdepth]
          rfl
      | node => cases hfits
  | node kind position children =>
      cases symbol with
      | node =>
          rw [← Option.some.inj hdepth]
          exact walk?_of_balanced hbalanced depth
      | _ => cases hfits
  | error => cases symbol <;> cases hfits

theorem Slot.lacks_of_uses {stream : Stream} {token : TokenKind} {kinds : List NodeKind}
    {slot : Slot} (havoids : slot.avoids token kinds = true) {shape : Shape}
    (huses : slot.Uses (Symbol.FitsShape stream) shape)
    (hlacks : shape.Lacks stream token kinds) : token ∉ shape.kinds stream := by
  simp only [Slot.avoids, Bool.and_eq_true, List.all_eq_true, bne_iff_ne] at havoids
  obtain ⟨hsymbols, hseparator⟩ := havoids
  obtain ⟨symbol, hsymbol, hfits⟩ : ∃ symbol : Symbol, symbol.avoids token kinds = true ∧
      symbol.FitsShape stream shape := by
    rcases huses with ⟨symbol, hsymbol, hfits⟩ | ⟨kind, hkind, hfits⟩
    · exact ⟨symbol, hsymbols symbol hsymbol, hfits⟩
    · refine ⟨.token kind, ?_, hfits⟩
      rw [hkind] at hseparator
      simpa [Symbol.avoids] using fun heq => hseparator (congrArg _ heq)
  cases shape with
  | token position =>
      have hkinds : Shape.kinds stream (.token position) = [(stream.tokenAt position).kind] := rfl
      rw [hkinds, List.mem_singleton]
      cases symbol with
      | token kind =>
          obtain rfl : (stream.tokenAt position).kind = kind := hfits
          exact Ne.symm (by simpa [Symbol.avoids] using hsymbol)
      | word text =>
          rw [hfits.1]
          simpa [Symbol.avoids] using hsymbol
      | node => cases hfits
  | node kind position children =>
      cases symbol with
      | node other =>
          obtain rfl : kind = other := hfits
          exact hlacks (by simpa [Symbol.avoids] using hsymbol)
      | _ => cases hfits
  | error => cases symbol <;> cases hfits

end Grammar

namespace Parse

open Grammar

variable {session : Session} {rules : Rules} {levels : Nat}

theorem Conforms.isBalanced
    (hgrammar : ∀ {kind production}, session.grammar.production? kind = some production →
      Rule.depthAfter? 0 production.rule = some 0)
    {shape : Shape} (hconforms : Conforms session True levels shape) :
    shape.IsBalanced session.stream := by
  induction hconforms with
  | token => trivial
  | error => trivial
  | placeholder hpart => exact absurd trivial hpart
  | empty => rfl
  | cut hpart => exact absurd trivial hpart
  | @node _ _ _ children _ hproduction hchildren hbelow ih =>
      rw [proper_eq_self hbelow] at hchildren
      change walk? 0 (Shape.kindsOf _ _) = _
      rw [Shape.kindsOf_eq_flatMap]
      exact walk?_of_rule (fun _ _ => Symbol.walk?_of_fits) ih hchildren.accepts
        (hgrammar hproduction)

/-- What a node of some kinds derives does not have a token that these kinds avoid. -/
theorem Conforms.lacks (hbuild : build rules = .ok session.grammar)
    {token : TokenKind} {kinds : List NodeKind} (havoid : rules.avoid token kinds = true)
    {shape : Shape} (hconforms : Conforms session True levels shape) :
    shape.Lacks session.stream token kinds := by
  induction hconforms with
  | token => trivial
  | error => trivial
  | placeholder hpart => exact absurd trivial hpart
  | empty => exact fun _ => List.not_mem_nil
  | cut hpart => exact absurd trivial hpart
  | @node _ kind _ children _ hproduction hchildren hbelow ih =>
      intro hkind hmem
      obtain ⟨rule, hrule, heq⟩ := production_of_rule hbuild hproduction
      rw [proper_eq_self hbelow, heq, rule_productionOf] at hchildren
      rw [Shape.kindsOf_eq_flatMap] at hmem
      obtain ⟨child, hchild, hmem⟩ := List.mem_flatMap.mp hmem
      obtain ⟨slot, hslot, huses⟩ := hchildren.accepts.uses_of_mem hchild
      exact Slot.lacks_of_uses (Rules.avoids_slot havoid hrule hkind hslot) huses (ih child hchild)
        hmem

theorem Conforms.accepts (hbuild : build rules = .ok session.grammar) {kind : NodeKind}
    {rule : Rule} (hrule : (kind, rule) ∈ rules) {position : Nat} {children : List Shape}
    (hconforms : Conforms session True (levels + 1) (.node kind position children)) :
    Rule.Accepts True (Symbol.FitsShape session.stream) rule children ∧
      ∀ child ∈ children, Conforms session True levels child := by
  cases hconforms with
  | placeholder hpart => exact absurd trivial hpart
  | node hproduction hfills hbelow =>
      obtain ⟨other, hother, heq⟩ := production_of_rule hbuild hproduction
      rw [proper_eq_self hbelow, heq, rule_productionOf, rule_unique hbuild hother hrule] at hfills
      exact ⟨hfills.accepts, hbelow⟩

theorem standard_isBalanced (hgrammar : session.grammar = .standard) {shape : Shape}
    (hconforms : Conforms session True levels shape) : shape.IsBalanced session.stream := by
  refine hconforms.isBalanced fun {kind production} hproduction => ?_
  rw [hgrammar] at hproduction
  obtain ⟨rule, hrule, heq⟩ := production_of_rule build_standard hproduction
  rw [heq, rule_productionOf]
  exact standard_balanced _ hrule

/-- A semicolon inside a balanced stretch stands deeper than the stretch. -/
theorem depth_of_inner_semi {low high position outer : Nat}
    (hbefore : walk? 0 (session.stream.kinds 0 low) = some outer)
    (hinner : walk? 0 (session.stream.kinds low high) = some 0)
    (hlow : low ≤ position) (hhigh : position < high)
    (hsemi : (session.stream.tokenAt position).kind = .semi) :
    ∃ depth, walk? 0 (session.stream.kinds 0 position) = some depth ∧ outer < depth := by
  rw [← session.stream.kinds_append hlow (Nat.le_of_lt hhigh)] at hinner
  obtain ⟨depth, hfront, hback⟩ := exists_walk?_of_append hinner
  rw [session.stream.kinds_cons hhigh, hsemi] at hback
  have hpos := (walk?_semi hback).1
  refine ⟨outer + depth, ?_, by omega⟩
  rw [← session.stream.kinds_append (Nat.zero_le low) hlow, walk?_append_of_some hbefore]
  exact walk?_add hfront outer

theorem before_node {stream : Stream} {symbols : List Symbol} {children before after : List Shape}
    {kind : NodeKind} {position : Nat} {below : List Shape}
    (hblock : Rule.Accepts True (Symbol.FitsShape stream) (Rule.block symbols) children)
    (hsplit : children = before ++ .node kind position below :: after) :
    ∃ first items, before = first :: items ∧
      Symbol.FitsShape stream (.token .leftBrace) first ∧
      ∀ item ∈ items, (Slot.many symbols).Uses (Symbol.FitsShape stream) item := by
  obtain ⟨first, between, last, rfl, hfirst, hlast, hbetween⟩ := accepts_block hblock
  cases before with
  | nil =>
      obtain ⟨rfl, -⟩ := List.cons.inj hsplit
      cases hfirst
  | cons item items =>
      obtain ⟨rfl, hrest⟩ := List.cons.inj hsplit
      refine ⟨first, items, rfl, hfirst, fun item hitem => hbetween item ?_⟩
      rcases List.append_eq_append_iff.mp hrest with ⟨more, rfl, hmore⟩ | ⟨more, rfl, -⟩
      · -- The node would be the closing brace.
        obtain rfl : more = [] := by
          have hlength := congrArg List.length hmore
          simp only [List.length_cons, List.length_nil, List.length_append] at hlength
          exact List.eq_nil_of_length_eq_zero (by omega)
        obtain ⟨rfl, -⟩ := List.cons.inj hmore
        cases hlast
      · exact List.mem_append_left _ hitem

/-- In a block, a semicolon that is no deeper than the block is an item of it. -/
theorem token_of_depth {grammar : Grammar} {size start stop position depth : Nat}
    {symbols : List Symbol} (hneutral : (Slot.many symbols).isNeutral 1 = true)
    {children : List Shape}
    (hblock : Rule.Accepts True (Symbol.FitsShape session.stream) (Rule.block symbols) children)
    (hbalanced : ∀ child ∈ children, child.IsBalanced session.stream)
    (hcovers : Covers grammar size children [] start stop)
    (houter : walk? 0 (session.stream.kinds 0 start) = some 0) (hstart : start ≤ position)
    (hstop : position < stop) (hsemi : (session.stream.tokenAt position).kind = .semi)
    (hwalk : walk? 0 (session.stream.kinds 0 position) = some depth) (hdepth : depth ≤ 1) :
    .token position ∈ children := by
  obtain ⟨before, child, after, low, high, reports, own, others, hsplit, hnone, hbefore, hchild,
    hlow, hhigh⟩ := hcovers.exists_at hstart hstop
  obtain ⟨hreports, rfl⟩ := List.append_eq_nil_iff.mp hnone.symm
  obtain ⟨rfl, rfl⟩ := List.append_eq_nil_iff.mp hreports
  have hmem : child ∈ children := hsplit ▸ by simp
  have hkinds : Shape.kindsOf session.stream _ = _ := Shape.kindsOf_of_covers hchild rfl
  have hfront : Shape.kindsOf session.stream _ = _ := Shape.kindsOf_of_covers hbefore rfl
  cases child with
  | token other =>
      -- A token covers one position only.
      cases hchild with
      | token _ hnil =>
          cases hnil
          obtain rfl : low = position := by omega
          exact hmem
  | node kind place below =>
      obtain ⟨first, items, rfl, hfirst, hitems⟩ := before_node hblock hsplit
      have hdeep : walk? 0 (session.stream.kinds 0 low) = some 1 := by
        have hopen : walk? 0 (first.kinds session.stream) = some 1 :=
          Symbol.walk?_of_fits (hbalanced first (by simp [hsplit])) hfirst rfl
        rw [← session.stream.kinds_append (Nat.zero_le start) hbefore.start_le_stop, ← hfront,
          walk?_append_of_some houter, Shape.kindsOf, walk?_append_of_some hopen,
          Shape.kindsOf_eq_flatMap]
        refine walk?_flatMap_of_neutral fun item hitem => ?_
        exact walk?_of_uses (fun _ _ => Symbol.walk?_of_fits) hneutral
          (hbalanced item (by simp [hsplit, hitem])) (hitems item hitem)
      have hinner : walk? 0 (session.stream.kinds low high) = some 0 := by
        rw [← hkinds, Shape.kindsOf, Shape.kindsOf, List.append_nil]
        exact hbalanced _ hmem
      obtain ⟨other, hother, hlt⟩ := depth_of_inner_semi hdeep hinner hlow hhigh hsemi
      rw [hwalk] at hother
      obtain rfl := Option.some.inj hother
      omega
  | error => cases hchild

/-- No token in front of the body of a module is a semicolon. -/
theorem heading_lacks_semi (hbuild : build Standard.rules = .ok session.grammar)
    {heading : List Shape} (hconforms : ∀ shape ∈ heading, Conforms session True levels shape)
    (hheading : ∀ shape ∈ heading, ∃ kind ∈ Standard.heading,
      Symbol.FitsShape session.stream (.node kind) shape) :
    .semi ∉ Shape.kindsOf session.stream heading := by
  rw [Shape.kindsOf_eq_flatMap, List.mem_flatMap]
  rintro ⟨shape, hshape, hmem⟩
  obtain ⟨kind, hkind, hfits⟩ := hheading shape hshape
  cases shape with
  | node other position children =>
      obtain rfl : other = kind := hfits
      exact (hconforms _ hshape).lacks hbuild standard_heading_avoids_semi hkind hmem
  | _ => cases hfits

theorem exists_walk {session : Session} (hgrammar : session.grammar = .standard)
    {shapes : List Shape}
    (hcovers : Covers session.grammar session.stream.size shapes [] 0 session.stream.size)
    (haccepts : Rule.Accepts True (Symbol.FitsShape session.stream) Standard.moduleRule shapes)
    {levels : Nat} (hconforms : ∀ shape ∈ shapes, Conforms session True levels shape)
    {position : Nat} (hposition : position ≤ session.stream.size) :
    ∃ depth, walk? 0 (session.stream.kinds 0 position) = some depth := by
  have hwalk := walk?_of_rule (fun _ _ => Symbol.walk?_of_fits)
    (fun shape hshape => standard_isBalanced hgrammar (hconforms shape hshape)) haccepts
    (standard_balanced _ standard_module)
  rw [← Shape.kindsOf_eq_flatMap, Shape.kindsOf_of_covers hcovers rfl,
    ← session.stream.kinds_append (Nat.zero_le position) hposition] at hwalk
  obtain ⟨depth, hdepth, -⟩ := exists_walk?_of_append hwalk
  exact ⟨depth, hdepth⟩

/-- In a module a semicolon inside no more brackets than the outermost ones is an item of the body. -/
theorem item_of_semicolon (hgrammar : session.grammar = .standard) {shapes : List Shape}
    (hcovers : Covers session.grammar session.stream.size shapes [] 0 session.stream.size)
    (haccepts : Rule.Accepts True (Symbol.FitsShape session.stream) Standard.moduleRule shapes)
    (hconforms : ∀ shape ∈ shapes, Conforms session True (levels + 1) shape) {position : Nat}
    (hposition : position < session.stream.size)
    (hsemi : (session.stream.tokenAt position).kind = .semi)
    (houtermost : ∀ depth, walk? 0 (session.stream.kinds 0 position) = some depth → depth ≤ 1) :
    ∃ heading start children, shapes = heading ++ [.node (.construct .body) start children] ∧
      .token position ∈ children := by
  have hbuild : build Standard.rules = .ok session.grammar := hgrammar ▸ build_standard
  obtain ⟨depth, hwalk⟩ := exists_walk hgrammar hcovers haccepts hconforms (Nat.le_of_lt hposition)
  have hdepth := houtermost depth hwalk
  obtain ⟨heading, last, rfl, hlast, hheading⟩ := accepts_module haccepts
  obtain ⟨kind, start, children, rfl⟩ : ∃ kind start children, last = .node kind start children := by
    cases last with
    | node kind start children => exact ⟨kind, start, children, rfl⟩
    | _ => cases hlast
  obtain rfl : kind = .construct .body := hlast
  refine ⟨heading, start, children, rfl, ?_⟩
  obtain ⟨hheadings, hbody⟩ := List.forall_mem_append.mp hconforms
  obtain ⟨symbols, hrule, hneutral⟩ := standard_body
  obtain ⟨hblock, hbelow⟩ := (hbody _ List.mem_cons_self).accepts hbuild hrule
  obtain ⟨reports, others, middle, hnone, hfront, hback⟩ := hcovers.split
  obtain ⟨rfl, rfl⟩ := List.append_eq_nil_iff.mp hnone.symm
  have hkinds : Shape.kindsOf session.stream _ = _ := Shape.kindsOf_of_covers hfront rfl
  have hlow : middle ≤ position := by
    refine Nat.le_of_not_lt fun hlt => heading_lacks_semi hbuild hheadings hheading ?_
    rw [hkinds, ← hsemi]
    exact session.stream.mem_kinds (Nat.zero_le _) hlt
  generalize hreports : ([] : List Report) = reports at hback
  cases hback with
  | @node _ _ stop _ _ _ inner outer _ hchildren hrest =>
      obtain ⟨rfl, rfl⟩ := List.append_eq_nil_iff.mp hreports.symm
      cases hrest
      refine token_of_depth hneutral hblock (fun child hchild =>
        standard_isBalanced hgrammar (hbelow child hchild)) hchildren ?_ hlow hposition hsemi hwalk
        hdepth
      rw [← hkinds, Shape.kindsOf_eq_flatMap]
      refine walk?_flatMap_of_neutral fun shape hshape => ?_
      obtain ⟨kind, -, hfits⟩ := hheading shape hshape
      exact Symbol.walk?_of_fits (standard_isBalanced hgrammar (hheadings shape hshape)) hfits rfl
end Parse

end LosslessTree
