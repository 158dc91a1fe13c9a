import LosslessTree.Proofs.Layout.Detour
import LosslessTree.Proofs.Parse.Depth
import LosslessTree.Proofs.Parse.Insertion
import LosslessTree.Proofs.Parse.Spelling

/-!
A closing bracket on a line of its own, in front of an item of a module. It costs one problem, and
its error node comes between two marks of items; all else is as it was.
-/

namespace LosslessTree

open Grammar

/-! ## Streams of tokens with some more between them -/

namespace Stream

open Token

theorem tokenAt_eq_getD (tokens : List Token) (position : Nat) :
    (ofTokens tokens).tokenAt position =
      (significant tokens)[position]?.getD (ofTokens tokens).final := by
  rcases Nat.lt_or_ge position (significant tokens).length with hlt | hge
  · rw [tokenAt_ofTokens hlt, List.getElem?_eq_getElem hlt, Option.getD_some]
  · rw [tokenAt_of_le (by rwa [size_ofTokens]), List.getElem?_eq_none hge, Option.getD_none]

theorem same_getD {tokens others : List Token} (hsame : List.Forall₂ Same tokens others)
    {final other : Token} (hfinal : final.Same other) (position : Nat) :
    (tokens[position]?.getD final).Same (others[position]?.getD other) := by
  rcases Nat.lt_or_ge position tokens.length with hlt | hge
  · have hother : position < others.length := hsame.length_eq ▸ hlt
    rw [List.getElem?_eq_getElem hlt, List.getElem?_eq_getElem hother]
    exact hsame.get hlt hother
  · rw [List.getElem?_eq_none hge, List.getElem?_eq_none (hsame.length_eq ▸ hge)]
    exact hfinal

end Stream

namespace Parse

open Token

theorem wedged_ofTokens (grammar : Grammar) (settings : Settings) {tokens others front otherFront
    middle back otherBack : List Token} (htokens : significant tokens = front ++ back)
    (hothers : significant others = otherFront ++ (middle ++ otherBack))
    (hfront : List.Forall₂ Same front otherFront) (hback : List.Forall₂ Same back otherBack)
    {boundary : Nat} (hlength : front.length = boundary + 1) (hmiddle : 0 < middle.length)
    (hfinal : (Stream.ofTokens tokens).final.Same (Stream.ofTokens others).final) :
    Wedged (Session.of grammar settings tokens).afresh (Session.of grammar settings others).afresh
      boundary middle.length := by
  have hsize : (Stream.ofTokens tokens).size = boundary + 1 + back.length := by
    rw [Stream.size_ofTokens, htokens, List.length_append, hlength]
  have hother : (Stream.ofTokens others).size = (Stream.ofTokens tokens).size + middle.length := by
    rw [hsize, Stream.size_ofTokens, hothers, List.length_append, List.length_append,
      ← hfront.length_eq, ← hback.length_eq, hlength]
    omega
  have hends := Stream.final_ofTokens tokens
  refine ⟨⟨rfl, rfl, .inr ⟨?_, ?_⟩, fun position _ hlt => ?_, hfinal, hends, rfl, rfl⟩,
    ⟨rfl, rfl, .inl hother, fun position hle _ => ?_, hfinal, hends, rfl, rfl⟩, ?_, hmiddle⟩
  · change boundary + 1 ≤ (Stream.ofTokens tokens).size
    omega
  · change boundary + 1 + 0 ≤ (Stream.ofTokens others).size
    omega
  · change position < boundary + 1 at hlt
    change ((Stream.ofTokens tokens).tokenAt position).Same
      ((Stream.ofTokens others).tokenAt (position + 0))
    rw [Nat.add_zero, Stream.tokenAt_eq_getD, Stream.tokenAt_eq_getD, htokens, hothers,
      List.getElem?_append_left (by omega),
      List.getElem?_append_left (by rw [← hfront.length_eq]; omega)]
    exact Stream.same_getD hfront hfinal position
  · change boundary + 1 ≤ position at hle
    change ((Stream.ofTokens tokens).tokenAt position).Same
      ((Stream.ofTokens others).tokenAt (position + middle.length))
    have hgap : position + middle.length - otherFront.length - middle.length =
        position - front.length := by
      rw [← hfront.length_eq]
      omega
    rw [Stream.tokenAt_eq_getD, Stream.tokenAt_eq_getD, htokens, hothers,
      List.getElem?_append_right (by omega),
      List.getElem?_append_right (by rw [← hfront.length_eq]; omega),
      List.getElem?_append_right (by rw [← hfront.length_eq]; omega), hgap]
    exact Stream.same_getD hback hfinal _
  · change boundary < (Stream.ofTokens tokens).size
    omega

/-! ## Outlines -/

theorem Agree.outlines {α : Type} {left right : Session} {overlap : Overlap}
    (hagree : Agree left right overlap) (read : String → α) {grammar : Grammar} {size : Nat}
    {shapes : List Shape} {reports : List Report} {start stop : Nat}
    (hcovers : Covers grammar size shapes reports start stop) (hquiet : reports = [])
    (hstart : overlap.base ≤ start) (hstop : stop ≤ overlap.limit) :
    Shape.outlines right.stream read (Shape.shiftAll overlap.shift shapes) =
      Shape.outlines left.stream read shapes := by
  induction hcovers with
  | nil => rfl
  | @token start stop rest reports _ hrest ih =>
      have hsame := hagree.token start hstart (Nat.lt_of_lt_of_le hrest.start_le_stop hstop)
      refine congrArg₂ List.cons ?_ (ih hquiet (Nat.le_succ_of_le hstart) hstop)
      exact congrArg₂ Outline.leaf hsame.kind.symm (congrArg read hsame.text.symm)
  | node _ hchildren hrest ihchildren ihrest =>
      obtain ⟨hinner, houter⟩ := List.append_eq_nil_iff.mp hquiet
      refine congrArg₂ List.cons (congrArg (Outline.node _ none) ?_) ?_
      · exact ihchildren hinner hstart (Nat.le_trans hrest.start_le_stop hstop)
      · exact ihrest houter (Nat.le_trans hstart hchildren.start_le_stop) hstop
  | error => cases hquiet

/-! ## Runs over a module -/

/-- A semicolon is an item of the body of a module. A closing bracket neither begins an item nor
follows the items. -/
theorem standard_body_items : ∃ symbols, (.construct .body, Rule.block symbols) ∈ Standard.rules ∧
    (itemsOf Standard.rules symbols).takes .semi = true ∧
    ∀ kind ∈ [TokenKind.rightParen, .rightBracket],
      (itemsOf Standard.rules symbols).first.kinds.contains kind = false ∧
      (itemsOf Standard.rules symbols).follow.kinds.contains kind = false :=
  ⟨_, List.mem_of_getElem? (show Standard.rules[4]? = _ from rfl), by decide +kernel⟩

theorem run_stray {left right : Session} {boundary : Nat} (hwedged : Wedged left right boundary 2)
    (hgrammar : left.grammar = .standard)
    (hsemi : (left.stream.tokenAt boundary).kind = .semi)
    (hcloser : (right.stream.tokenAt (boundary + 1)).kind ∈ [TokenKind.rightParen, .rightBracket])
    (hitem : (right.stream.tokenAt (boundary + 2)).kind = .semi)
    (hquiet : (run left (.construct .module)).reports = [])
    (hsilent : (run left (.construct .module)).lastReport = none) {position : Nat}
    {children heading : List Shape}
    (hbuilt : (run left (.construct .module)).built =
      .node (.construct .body) position children :: heading)
    (hmem : .token boundary ∈ children) :
    ∃ recovery before behind, children = before ++ .token boundary :: behind ∧
      (run right (.construct .module)).built = .node (.construct .body) position
        (before ++ .token boundary :: .error recovery (boundary + 1) 1 :: .token (boundary + 2) ::
          Shape.shiftAll 2 behind) :: heading ∧
      (run right (.construct .module)).reports =
        [⟨boundary + 1, 1, .unexpected, recovery⟩] := by
  have hbuild : build Standard.rules = .ok left.grammar := hgrammar ▸ build_standard
  obtain ⟨symbols, hrule, htakes, hstray⟩ := standard_body_items
  obtain ⟨opening, closing, hblock⟩ := exists_isBlock hbuild hrule
  obtain ⟨front, last, part, hends, hlast, hpart⟩ := exists_endsWith hbuild
    (show (.construct .module, [.many [Standard.node .pragma],
      .allOrNone [Standard.node .moduleDeclaration]] ++ [.all [Standard.node .body]]) ∈ Standard.rules
      from standard_module)
  obtain ⟨hfirst, hfollow⟩ := hstray _ hcloser
  have hname : (right.stream.tokenAt (boundary + 1)).kind ≠ .varId ∧
      (right.stream.tokenAt (boundary + 1)).kind ≠ .eof := by
    simp only [List.mem_cons, List.not_mem_nil, or_false] at hcloser
    rcases hcloser with hkind | hkind <;> rw [hkind] <;> exact ⟨nofun, nofun⟩
  have hsize := hwedged.size
  have hlt := hwedged.boundary_lt
  have hitems (stream : Stream) {place : Nat} (hkind : (stream.tokenAt place).kind = .semi) :
      (itemsOf Standard.rules symbols).Takes (stream.tokenAt place) :=
    .of_takes (by rw [hkind]; exact nofun) (by rw [hkind]; exact htakes)
  let follow := (itemsOf Standard.rules symbols).follow.union
    (part.follow.union (last.follow.union (.ofKind .eof)))
  have hnone : follow.admits (right.stream.tokenAt (boundary + 1)) = false := by
    rw [Lookahead.admits_union, Lookahead.admits_of_kind hname.1, hfollow, hlast, hpart]
    simpa using Ne.symm hname.2
  have hpassage : (Passage.strayItem (boundary + 1)
      (recoveryOf (itemsOf Standard.rules symbols) follow)).TakenAt (boundary + 1)
        (node right 99) right (itemsOf Standard.rules symbols) follow :=
    Passage.strayItem_takenAt rfl (by omega) hname.2
      (by rw [Lookahead.admits_of_kind hname.1, hfirst]) hnone (by rw [hitem]; exact nofun)
      (hitems right.stream hitem)
  obtain ⟨before, behind, hchildren, hother, hreports⟩ := run_wedged hwedged
    (sound_of_build hbuild (by decide +kernel)) hends hblock (by rw [hsemi]; exact nofun)
    (by rw [hsemi]; exact nofun) (by rw [hsemi]; exact nofun) (hitems left.stream hsemi) rfl hpassage
    hquiet hsilent hbuilt hmem
  exact ⟨_, before, behind, hchildren, hother, hreports⟩

/-- What the whole parse of a module with the bracket comes to, told by that of the module. -/
theorem Traced.stray {left right : Session} {boundary : Nat} (hwedged : Wedged left right boundary 2)
    (hgrammar : left.grammar = .standard) {shapes : List Shape}
    (htraced : Traced left (.construct .module) shapes []) {otherShapes : List Shape}
    {otherReports : List Report}
    (hother : Traced right (.construct .module) otherShapes otherReports)
    (hsemi : (left.stream.tokenAt boundary).kind = .semi)
    (houtermost : ∀ depth,
      TokenKind.walk? 0 (left.stream.kinds 0 boundary) = some depth → depth ≤ 1)
    (hcloser : (right.stream.tokenAt (boundary + 1)).kind ∈ [TokenKind.rightParen, .rightBracket])
    (hitem : (right.stream.tokenAt (boundary + 2)).kind = .semi) :
    ∃ recovery heading position before behind,
      shapes = heading ++ [.node (.construct .body) position (before ++ .token boundary :: behind)] ∧
      otherShapes = heading ++ [.node (.construct .body) position (before ++ .token boundary ::
        .error recovery (boundary + 1) 1 :: .token (boundary + 2) :: Shape.shiftAll 2 behind)] ∧
      otherReports = [⟨boundary + 1, 1, .unexpected, recovery⟩] := by
  have hagree := hwedged.front
  have hbuild : build Standard.rules = .ok left.grammar := hgrammar ▸ build_standard
  have hsound : left.grammar.Sound := sound_of_build hbuild (by decide +kernel)
  have hproduction := production?_of_rule hbuild standard_module
  obtain ⟨haccepts, hconforms⟩ :=
    htraced.accepts hsound hagree.leftFinal hagree.leftReuse hproduction
  rw [rule_productionOf] at haccepts
  obtain ⟨heading, position, children, rfl, hmem⟩ := item_of_semicolon hgrammar htraced.covers
    haccepts hconforms hwedged.boundary_lt hsemi houtermost
  have hbuilt := htraced.built_eq
  rw [List.reverse_append] at hbuilt
  have hquiet : (run left (.construct .module)).reports = [] := htraced.reports_eq
  have hsilent := (respected_reported left).run hagree.leftFinal hagree.leftReuse
    (.construct .module) (fun _ => rfl) hquiet
  obtain ⟨recovery, before, behind, rfl, hshapes, hreports⟩ :=
    run_stray hwedged hgrammar hsemi hcloser hitem hquiet hsilent hbuilt hmem
  rw [hother.built_eq, List.reverse_eq_iff] at hshapes
  rw [hother.reports_eq, List.reverse_eq_iff] at hreports
  exact ⟨recovery, heading, position, before, behind, rfl, by simpa using hshapes, hreports⟩

theorem Wedged.outlines {left right : Session} {boundary extent : Nat}
    (hwedged : Wedged left right boundary extent) {grammar : Grammar} {kind : NodeKind}
    {position : Nat} {heading before behind : List Shape}
    (hcovers : Covers grammar left.stream.size
      (heading ++ [.node kind position (before ++ .token boundary :: behind)]) [] 0
      left.stream.size) (read : String → α) :
    Shape.outlines right.stream read heading = Shape.outlines left.stream read heading ∧
      Shape.outlines right.stream read before = Shape.outlines left.stream read before ∧
      Shape.outlines right.stream read (Shape.shiftAll extent behind) =
        Shape.outlines left.stream read behind := by
  have hfront := hwedged.front
  have hunshifted {shapes : List Shape} {start stop : Nat}
      (hcovers : Covers grammar left.stream.size shapes [] start stop) (hstop : stop ≤ boundary) :
      Shape.outlines right.stream read shapes = Shape.outlines left.stream read shapes := by
    have heq := hfront.outlines read hcovers rfl (Nat.zero_le _) (Nat.le_succ_of_le hstop)
    rwa [shiftAll_zero] at heq
  obtain ⟨first, second, middle, hnone, hheading, hbody⟩ := hcovers.split
  obtain ⟨rfl, rfl⟩ := List.append_eq_nil_iff.mp hnone.symm
  generalize hreports : ([] : List Report) = reports at hbody
  cases hbody with
  | @node _ _ stop _ _ _ inner outer _ hchildren hrest =>
      obtain ⟨rfl, rfl⟩ := List.append_eq_nil_iff.mp hreports.symm
      obtain ⟨third, fourth, place, hnone, hbefore, htoken⟩ := hchildren.split
      obtain ⟨rfl, rfl⟩ := List.append_eq_nil_iff.mp hnone.symm
      cases htoken with
      | token _ hbehind =>
          refine ⟨hunshifted hheading hbefore.start_le_stop, hunshifted hbefore (Nat.le_refl _), ?_⟩
          have hstop := hbehind.stop_le_size hwedged.boundary_lt
          exact hwedged.back.outlines read hbehind rfl (Nat.le_refl _) (Nat.le_succ_of_le hstop)

/-! ## Texts -/

def moduleOutline (heading items : List (Outline String)) : Outline String :=
  .node (.construct .module) none (heading ++ [.node (.construct .body) none items])

theorem kinds_ofTokens {tokens : List Token} {position : Nat}
    (hposition : position ≤ (significant tokens).length) :
    (Stream.ofTokens tokens).kinds 0 position =
      ((significant tokens).take position).map (·.kind) := by
  refine List.ext_getElem (by simp [Stream.kinds, hposition]) fun index hleft hright => ?_
  have hindex : index < (significant tokens).length := by
    simp at hright
    omega
  simp [Stream.kinds, Stream.tokenAt_ofTokens hindex]

theorem standard_lacks_error : Grammar.standard.contains .error ≠ true := by decide +kernel

theorem outlines_wordsAt_one {stream : Stream} {position : Nat} (hposition : position < stream.size)
    (read : String → α) :
    (Shape.wordsAt stream position 1).map (·.token.outline read) =
      [(stream.tokenAt position).outline read] := by
  have hword := Array.getElem?_eq_getElem hposition
  have hwords : Shape.wordsAt stream position 1 = [stream.words[position]] := by
    refine List.ext_getElem ?_ fun index hleft hright => ?_
    · simp only [Shape.wordsAt, Array.length_toList, Array.size_extract, List.length_singleton]
      change min (position + 1) stream.size - position = 1
      omega
    · obtain rfl : index = 0 := Nat.lt_one_iff.mp hright
      simp [Shape.wordsAt]
      rfl
  rw [hwords, Stream.tokenAt_eq hword]
  rfl

theorem outline_module {stream : Stream} (hgrouped : stream.Grouped) {grammar : Grammar}
    {heading children : List Shape} {position stop : Nat} {reports : List Report}
    (hcovers : Covers grammar stream.size
      (heading ++ [.node (.construct .body) position children]) reports 0 stop) :
    (Shape.rootOf stream (.construct .module)
        (heading ++ [.node (.construct .body) position children])).outline id =
      moduleOutline (Shape.outlines stream id heading) (Shape.outlines stream id children) := by
  rw [Shape.outline_rootOf hgrouped hcovers, Shape.outlines_append]
  rfl

theorem span_of_single {stream : Stream} (hordered : stream.Ordered) {position : Nat}
    (hposition : position < stream.size) (complaint : Complaint) (expected : Lookahead) :
    (Report.node stream ⟨position, 1, complaint, expected⟩).span =
      (stream.tokenAt position).span := by
  have hspan := Shape.span_of_report hordered
    (show (⟨position, 1, complaint, expected⟩ : Report).position + 1 ≤ stream.size from hposition)
  have hbetween : Span.between? (stream.offsetAt position) (stream.tokenAt position).span.stop =
      some (stream.tokenAt position).span := Span.between?_eq_some_iff.mpr ⟨rfl, rfl⟩
  simp only [Report.span, Nat.add_zero, hbetween] at hspan
  exact (Except.ok.inj hspan).symm

theorem problem_of_single {stream : Stream} (hordered : stream.Ordered) {position : Nat}
    (hposition : position < stream.size) {complaint : Complaint} {expected : Lookahead}
    {problems : List Problem}
    (hproblems : problemsOf stream [⟨position, 1, complaint, expected⟩] = .ok problems) :
    ∃ problem, problems = [problem] ∧ problem.span = (stream.tokenAt position).span ∧
      problem.expected = expected := by
  have hextents : ∀ report ∈ [(⟨position, 1, complaint, expected⟩ : Report)],
      report.position + report.extent ≤ stream.size := List.forall_mem_singleton.mpr hposition
  obtain ⟨same, hsame, hmap⟩ := problemsOf_eq hordered hextents
  obtain rfl := Except.ok.inj (hproblems.symm.trans hsame)
  obtain ⟨problem, rfl, hproblem⟩ := List.map_eq_singleton_iff.mp hmap
  obtain ⟨hspan, hexpected⟩ := Prod.mk.inj hproblem
  exact ⟨problem, rfl, hspan.trans (span_of_single hordered hposition _ _), hexpected⟩

variable {tokens others : List Token} {closer : Token}

theorem parseTokens_detour (hdetour : Layout.Detour closer tokens others)
    (hordered : Token.Ordered tokens) (hotherOrdered : Token.Ordered others)
    (hfinal : (Stream.ofTokens tokens).final.Same (Stream.ofTokens others).final)
    (hcloser : closer.kind = .rightParen ∨ closer.kind = .rightBracket) (settings : Settings)
    {parsed : Parsed}
    (hparse : parseTokens .standard settings (.construct .module) tokens = .ok parsed)
    (hproblems : parsed.problems = []) :
    ∃ other problem error heading items more,
      parseTokens .standard settings (.construct .module) others = .ok other ∧
      other.problems = [problem] ∧ problem.span = closer.span ∧
      other.tree.root.errors = [error] ∧ error.span = closer.span ∧
      parsed.tree.root.outline id = moduleOutline heading (items ++ .leaf .semi "" :: more) ∧
      other.tree.root.outline id =
        moduleOutline heading (items ++ .leaf .semi "" ::
          .node .error (some problem.expected) [closer.outline id] :: .leaf .semi "" :: more) := by
  obtain ⟨front, semi, back, otherFront, semiBefore, semiBehind, otherBack, htokens, hothers, hkind,
    htext, hbefore, hbehind, hfront, hback, hdepth⟩ := hdetour.parts
  have hlength := hfront.length_eq
  have hwedged := wedged_ofTokens .standard settings
    (htokens.trans (List.append_cons front semi back))
    (show significant others = (otherFront ++ [semiBefore]) ++ ([closer, semiBehind] ++ otherBack) by
      rw [hothers]; simp)
    (List.rel_append hfront (.cons hbefore .nil)) hback (List.length_append.trans rfl) Nat.two_pos
    hfinal
  have hsemi : (Stream.ofTokens tokens).tokenAt front.length = semi := by
    rw [Stream.tokenAt_eq_getD, htokens]
    simp
  have hcloses : (Stream.ofTokens others).tokenAt (front.length + 1) = closer := by
    rw [Stream.tokenAt_eq_getD, hothers, hlength]
    simp
  have hitem : (Stream.ofTokens others).tokenAt (front.length + 2) = semiBehind := by
    rw [Stream.tokenAt_eq_getD, hothers, hlength]
    simp
  obtain ⟨shapes, reports, problems, htraced, hreports, heq⟩ :=
    parse_eq .standard settings (.construct .module) hordered
  obtain rfl := Except.ok.inj (heq.symm.trans (parse_of_parseTokens hparse).2)
  obtain rfl : problems = [] := hproblems
  obtain rfl := reports_eq_nil hreports
  obtain ⟨otherShapes, otherReports, otherProblems, hother, hotherReports, hotherEq⟩ :=
    parse_eq .standard settings (.construct .module) hotherOrdered
  obtain ⟨recovery, heading, position, before, behind, rfl, rfl, rfl⟩ := htraced.stray hwedged rfl hother
    (hsemi ▸ hkind) (by
      intro depth hwalk
      change TokenKind.walk? 0 ((Stream.ofTokens tokens).kinds 0 front.length) = _ at hwalk
      rw [kinds_ofTokens (by rw [htokens]; simp), htokens, List.take_left] at hwalk
      exact hdepth depth hwalk)
    (by
      change ((Stream.ofTokens others).tokenAt (front.length + 1)).kind ∈ _
      rw [hcloses]
      simpa using hcloser)
    (by
      change ((Stream.ofTokens others).tokenAt (front.length + 2)).kind = _
      rw [hitem, ← hbehind.kind, hkind])
  have hposition : front.length + 1 < (Stream.ofTokens others).size :=
    hother.covers.extent_le (List.mem_singleton_self _)
  have hstream := Stream.ordered_ofTokens hotherOrdered
  obtain ⟨problem, rfl, hspan, rfl⟩ := problem_of_single hstream hposition hotherReports
  have herror := span_of_single hstream hposition .unexpected problem.expected
  rw [hcloses] at hspan herror
  have herrors := errors_rootOf hother.covers (fun kind hkind heq => standard_lacks_error
    (heq ▸ contains_of_mentions build_standard hkind))
    (show NodeKind.construct .module ≠ .error from nofun)
  obtain ⟨hheading, hearlier, hlater⟩ := hwedged.outlines htraced.covers id
  have hmark {token : Token} (hsame : semi.Same token) : token.outline id = .leaf .semi "" := by
    rw [Token.outline, ← hsame.kind, ← hsame.text, hkind, htext]
    rfl
  refine ⟨_, problem, _, Shape.outlines (.ofTokens tokens) id heading,
    Shape.outlines (.ofTokens tokens) id before, Shape.outlines (.ofTokens tokens) id behind,
    parseTokens_eq (by decide +kernel) settings hotherEq, rfl, hspan, herrors, herror, ?_, ?_⟩
  · refine (outline_module (Stream.grouped_ofTokens tokens) htraced.covers).trans ?_
    rw [Shape.outlines_append, Shape.outlines, Shape.outline, hsemi, hmark (.refl semi)]
  · refine (outline_module (Stream.grouped_ofTokens others) hother.covers).trans ?_
    have hfirst : (Stream.ofTokens others).tokenAt front.length = semiBefore := by
      rw [Stream.tokenAt_eq_getD, hothers, hlength]
      simp
    change Shape.outlines (Stream.ofTokens others) id heading = _ at hheading
    change Shape.outlines (Stream.ofTokens others) id before = _ at hearlier
    change Shape.outlines (Stream.ofTokens others) id (Shape.shiftAll 2 behind) = _ at hlater
    rw [Shape.outlines_append, Shape.outlines, Shape.outlines, Shape.outlines, Shape.outline,
      Shape.outline, Shape.outline, outlines_wordsAt_one hposition, hfirst, hcloses, hitem,
      hmark hbefore, hmark hbehind, hheading, hearlier, hlater]
    rfl

theorem final_tokensOfText (settings : Settings) (text : String) :
    ∃ stop, (Stream.ofTokens (tokensOfText settings text)).final = Token.eof stop := by
  obtain ⟨front, stop, heq, hfront⟩ := tokensOfText_ends settings text
  refine ⟨stop, ?_⟩
  change Tape.finalOf (tokensOfText settings text) = _
  have hnone : front.find? (·.kind = .eof) = none := by simpa using hfront
  rw [heq, Tape.finalOf, List.find?_append, hnone]
  rfl

/-- A closing bracket gets a line of its own in front of an item of the outermost block. If there was
no problem before, there is one now, whose range is that of the bracket. Its error node is the only
one; with one more mark of an item it is all that the module has in addition. -/
theorem parseText_strayLine {front rest : String} {before after : List Token} {token : Token}
    (hscan : Token.ofText (front ++ rest) = before ++ token :: after)
    (hstart : token.span.start = front.utf8ByteSize)
    (hbegins : Layout.BeginsItem token (Layout.reach (Layout.start .module) before))
    (hpending : token.kind = .leftBrace →
      (Layout.reach (Layout.start .module) before).pending = none)
    {c : Char} (hclosing : c = ')' ∨ c = ']') {parsed : Parsed}
    (hparse : parseText .default (.construct .module) (front ++ rest) = .ok parsed)
    (hproblems : parsed.problems = []) :
    ∃ other problem error closer heading items more,
      parseText .default (.construct .module) (front ++ Layout.strayLine front c ++ rest) =
        .ok other ∧
      other.problems = [problem] ∧ problem.span.start = front.utf8ByteSize ∧
      problem.span.stop = front.utf8ByteSize + 1 ∧
      other.tree.root.errors = [error] ∧ error.span = problem.span ∧
      parsed.tree.root.outline id = moduleOutline heading (items ++ .leaf .semi "" :: more) ∧
      other.tree.root.outline id =
        moduleOutline heading (items ++ .leaf .semi "" ::
          .node .error (some problem.expected) [.leaf closer (String.ofList [c])] ::
            .leaf .semi "" :: more) := by
  obtain ⟨closer, hcloser, hdetour⟩ := Layout.text_detour hscan hstart hbegins hpending hclosing
  obtain ⟨stop, hstop⟩ := final_tokensOfText .default (front ++ rest)
  obtain ⟨otherStop, hotherStop⟩ :=
    final_tokensOfText .default (front ++ Layout.strayLine front c ++ rest)
  have hfinal : (Stream.ofTokens (tokensOfText .default (front ++ rest))).final.Same
      (Stream.ofTokens (tokensOfText .default (front ++ Layout.strayLine front c ++ rest))).final := by
    rw [hstop, hotherStop]
    exact ⟨rfl, rfl⟩
  obtain ⟨other, problem, error, heading, items, more, hother, hsole, hspan, herrors, herror, houtline,
    hotherOutline⟩ := parseTokens_detour hdetour (tokensOfText_ordered _ _)
      (tokensOfText_ordered _ _) hfinal hcloser .default hparse hproblems
  have hsize : (String.ofList [c]).utf8ByteSize = 1 := by rcases hclosing with rfl | rfl <;> rfl
  refine ⟨other, problem, error, closer, heading, items, more, hother, hsole, ?_, ?_, herrors,
    herror.trans hspan.symm, houtline, hotherOutline⟩
  · rw [hspan]
    rfl
  · rw [hspan]
    exact congrArg (front.utf8ByteSize + ·) hsize

theorem parseText_strayLine_of_block :
    ∃ other problem error closer heading items more,
      parseText .default (.construct .module)
        ("x = do\n  y\n" ++ Layout.strayLine "x = do\n  y\n" ')' ++ "z") = .ok other ∧
      other.problems = [problem] ∧ problem.span.start = 11 ∧ problem.span.stop = 11 + 1 ∧
      other.tree.root.errors = [error] ∧ error.span = problem.span ∧
      other.tree.root.outline id =
        moduleOutline heading (items ++ .leaf .semi "" ::
          .node .error (some problem.expected) [.leaf closer (String.ofList [')'])] ::
            .leaf .semi "" :: more) := by
  have hclean : (parseText .default (.construct .module) ("x = do\n  y\n" ++ "z")).toOption.map
      (·.problems) = some [] := by
    decide +kernel
  cases hparse : parseText .default (.construct .module) ("x = do\n  y\n" ++ "z") with
  | error error =>
      rw [hparse] at hclean
      cases hclean
  | ok parsed =>
      rw [hparse] at hclean
      have hproblems : parsed.problems = [] := Option.some.inj hclean
      have hscan : Token.ofText ("x = do\n  y\n" ++ "z") =
          [.covering .varId 0 "x", .covering .whitespace 1 " ", .covering .equals 2 "=",
            .covering .whitespace 3 " ", .covering .kwDo 4 "do", .covering .whitespace 6 "\n  ",
            .covering .varId 9 "y", .covering .whitespace 10 "\n"] ++
              .covering .varId 11 "z" :: [.eof 12] := by
        decide +kernel
      obtain ⟨other, problem, error, closer, heading, items, more, hother, hsole, hstart, hstop,
        herrors, herror, -, houtline⟩ := parseText_strayLine hscan (by decide +kernel)
          ⟨by decide, by decide, by decide⟩ (by decide) (.inl rfl) hparse hproblems
      exact ⟨other, problem, error, closer, heading, items, more, hother, hsole, hstart, hstop,
        herrors, herror, houtline⟩

/-- How many problems a text has as a module, and how many blocks of declarations. -/
def countBlocks (text : String) : Option (Nat × Nat) :=
  (parseText .default (.construct .module) text).toOption.map fun parsed =>
    (parsed.problems.length,
      (parsed.tree.root.descendants.filter (·.kind = .construct .declarationBlock)).length)

/-- An opening brace that the word in front still waits for is no such item: where the bracket comes
first, the word gets a block without items. -/
theorem strayLine_fills_pendingBlock :
    (∃ before token after,
      Token.ofText ("x where\n" ++ "\x7b y \x7d") = before ++ token :: after ∧
        token.span.start = "x where\n".utf8ByteSize ∧
        Layout.BeginsItem token (Layout.reach (Layout.start .module) before)) ∧
      countBlocks ("x where\n" ++ "\x7b y \x7d") = some (0, 1) ∧
      countBlocks ("x where\n" ++ Layout.strayLine "x where\n" ')' ++ "\x7b y \x7d") =
        some (1, 2) := by
  refine ⟨⟨[.covering .varId 0 "x", .covering .whitespace 1 " ", .covering .kwWhere 2 "where",
      .covering .whitespace 7 "\n"], .covering .leftBrace 8 "\x7b",
    [.covering .whitespace 9 " ", .covering .varId 10 "y", .covering .whitespace 11 " ",
      .covering .rightBrace 12 "\x7d", .eof 13], ?_, ?_, ?_⟩, ?_⟩
  · decide +kernel
  · decide +kernel
  · exact ⟨by decide, by decide, by decide⟩
  · decide +kernel

/-- How many problems a text has as a block of declarations, and what is in the block. -/
def readBlock (text : String) : Option (Nat × List NodeKind) :=
  (parseText ⟨32, .none⟩ (.construct .declarationBlock) text).toOption.map fun parsed =>
    (parsed.problems.length, parsed.tree.root.significant.map (·.kind))

/-- A closing bracket on the line of an item may cost more. Neither an item nor what is behind the
items begins with it; but the readings of the item before it are now tried on a window that holds
the bracket, and another one wins. -/
theorem exists_item_changed :
    (Grammar.standard.production (.construct .declarationBlock)).toOption.map
        (·.places.map fun place =>
          (place.first.kinds.contains .rightParen, place.follow.kinds.contains .rightParen)) =
      some [(false, false), (false, false), (false, false)] ∧
    readBlock "\x7b type T ; x \x7d" = some (0,
      [.token .leftBrace, .construct .typeFamilyDeclaration, .token .semi, .construct .qualifiedName,
        .token .rightBrace]) ∧
    readBlock "\x7b type T ) ; x \x7d" = some (2,
      [.token .leftBrace, .construct .typeDeclaration, .token .semi, .construct .qualifiedName,
        .token .rightBrace]) := by
  decide +kernel

end Parse

end LosslessTree
