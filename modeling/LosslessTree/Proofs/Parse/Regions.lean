import LosslessTree.Proofs.Node.Surroundings
import LosslessTree.Proofs.Parse.Outcome
import LosslessTree.Proofs.Parse.Outlines

/-!
What error nodes hold. Tokens are skipped up to the first one that is expected, and no further. So
an error node begins with the token that did not fit and ends with the last significant token
before the one at which parsing goes on.
-/

namespace LosslessTree

open Grammar

/-- Some tokens have been skipped with these behind them: from one significant token to another, up
to the first one that was expected. -/
structure Lookahead.Skips (expected : Lookahead) (region rest : List Token) : Prop where
  starts : ∀ token ∈ region.head?, token.isTrivia = false
  ends : ∀ token ∈ region.getLast?, token.isTrivia = false
  passes : ∀ token ∈ (region.filter (!·.isTrivia)).tail, expected.admits token = false
  /-- Where there is no such token, the text ends. -/
  stops : ∀ token ∈ (rest.filter (!·.isTrivia)).head?, expected.admits token = true

/-- The tokens of a report that the first one is followed by are not expected, and the one behind
the last is, if there is one. -/
structure Report.IsExact (stream : Stream) (report : Report) : Prop where
  passes : ∀ position, report.position < position → position < report.position + report.extent →
    report.expected.admits (stream.tokenAt position) = false
  stops : 0 < report.extent → report.position + report.extent < stream.size →
    report.expected.admits (stream.tokenAt (report.position + report.extent)) = true

namespace Parse

variable {session : Session}

/-! ## Reports -/

theorem not_admits_of_runOutside {stop : Lookahead} {limit position other : Nat}
    (hlow : position ≤ other)
    (hhigh : other < position + State.runOutside session stop limit position) :
    stop.admits (session.stream.tokenAt other) = false := by
  induction limit generalizing position with
  | zero => exact absurd hhigh (by simp [State.runOutside]; omega)
  | succ limit ih =>
      unfold State.runOutside at hhigh
      split at hhigh
      · omega
      · next hstop =>
          rcases Nat.eq_or_lt_of_le hlow with heq | hlt
          · subst heq
            simpa using hstop
          · exact ih hlt (by rwa [← Nat.add_assoc, Nat.add_right_comm] at hhigh)

theorem admits_behind_runOutside {stop : Lookahead} {limit position : Nat}
    (hlimit : State.runOutside session stop limit position < limit) :
    stop.admits (session.stream.tokenAt
      (position + State.runOutside session stop limit position)) = true := by
  induction limit generalizing position with
  | zero => exact absurd hlimit (Nat.not_lt_zero _)
  | succ limit ih =>
      unfold State.runOutside at hlimit ⊢
      split at hlimit
      · next hstop =>
          rw [if_pos hstop]
          exact hstop
      · next hstop =>
          rw [if_neg hstop]
          have hnext := ih (Nat.lt_of_succ_lt_succ hlimit)
          rwa [Nat.add_right_comm, Nat.add_assoc] at hnext

theorem exact_skip {state : State} (hbound : state.horizon = session.stream.size)
    (stop : Lookahead) (complaint : Complaint) :
    Report.IsExact session.stream ⟨state.position, 1 + State.runOutside session stop
      (state.horizon - (state.position + 1)) (state.position + 1), complaint, stop⟩ where
  passes position hlow hhigh := by
    apply not_admits_of_runOutside hlow
    change position < state.position + (1 + _) at hhigh
    rwa [← Nat.add_assoc] at hhigh
  stops _ hsize := by
    change state.position + (1 + _) < _ at hsize
    change stop.admits (session.stream.tokenAt (state.position + (1 + _))) = true
    rw [← Nat.add_assoc] at hsize ⊢
    apply admits_behind_runOutside
    omega

/-- Actual parsing sees all tokens, and every report that it makes is exact. -/
theorem respected_exact (session : Session) : Respected session .actual fun before after =>
    before.horizon = session.stream.size → after.horizon = session.stream.size ∧
      ((∀ report ∈ before.reports, report.IsExact session.stream) →
        ∀ report ∈ after.reports, report.IsExact session.stream) where
  refl _ hbound := ⟨hbound, id⟩
  trans hfirst hsecond hbound := by
    obtain ⟨hmiddle, hreports⟩ := hfirst hbound
    obtain ⟨hafter, hmore⟩ := hsecond hmiddle
    exact ⟨hafter, hmore ∘ hreports⟩
  touch _ _ hbound := ⟨hbound, id⟩
  bump state hahead hbound := by
    rw [State.bump_of_ahead hahead]
    exact ⟨hbound, id⟩
  skip state stop complaint _ hbound :=
    ⟨hbound, fun hreports => List.forall_mem_cons.mpr ⟨exact_skip hbound stop complaint, hreports⟩⟩
  missing state expected what hbound := by
    by_cases hlast : state.lastReport = some state.position
    · rw [State.missing_of_reported hlast]
      exact ⟨hbound, id⟩
    · rw [State.missing_of_unreported hlast]
      refine ⟨hbound, fun hreports => List.forall_mem_cons.mpr ⟨⟨?_, ?_⟩, hreports⟩⟩
      · intro position hlow hhigh
        exact absurd hlow (Nat.not_lt.mpr (Nat.le_of_lt_succ (Nat.lt_succ_of_lt hhigh)))
      · exact fun hextent => absurd hextent (Nat.lt_irrefl 0)
  nest _ _ _ _ hinner := hinner

theorem Traced.exact (hfinal : session.stream.final.kind = .eof) (hreuse : session.reuse = false)
    {start : NodeKind} {shapes : List Shape} {reports : List Report}
    (htraced : Traced session start shapes reports) :
    ∀ report ∈ reports, report.IsExact session.stream := by
  have hrun := ((respected_exact session).run hfinal hreuse start rfl).2
  rw [htraced.reports_eq] at hrun
  intro report hreport
  exact hrun (fun _ hnone => absurd hnone List.not_mem_nil) report (List.mem_reverse.mpr hreport)

end Parse

/-! ## Error nodes in their tree -/

namespace Shape

variable {stream : Stream} {grammar : Grammar} {shapes : List Shape} {reports : List Report}
  {start middle stop : Nat} {front back more : List Node} {cursor : Cursor}

/-- A cursor stands at the error node of a report, whose blanks at the end come behind it. Around
the tokens of a stretch of the stream there are further leaves. -/
structure IsRegion (stream : Stream) (start stop : Nat) (front back : List Node) (report : Report)
    (cursor : Cursor) : Prop where
  focus : cursor.focus = report.node stream
  start_le : start ≤ report.position
  le_stop : report.position + report.extent ≤ stop
  preceding : cursor.preceding = front ++ (stream.between start report.position).map .ofToken
  following : cursor.following =
    ((splitLast (wordsAt stream report.position report.extent)).2
      ++ stream.between (report.position + report.extent) stop).map .ofToken ++ back

theorem IsRegion.widen_front {report : Report}
    (hregion : IsRegion stream middle stop (front ++ more) back report cursor)
    (hstart : start ≤ middle) (hmore : more = (stream.between start middle).map .ofToken) :
    IsRegion stream start stop front back report cursor where
  focus := hregion.focus
  start_le := Nat.le_trans hstart hregion.start_le
  le_stop := hregion.le_stop
  preceding := by
    rw [hregion.preceding, hmore, List.append_assoc, ← List.map_append,
      Stream.between_append hstart hregion.start_le]
  following := hregion.following

theorem IsRegion.widen_back {report : Report}
    (hregion : IsRegion stream start middle front (more ++ back) report cursor)
    (hstop : middle ≤ stop) (hmore : more = (stream.between middle stop).map .ofToken) :
    IsRegion stream start stop front back report cursor where
  focus := hregion.focus
  start_le := hregion.start_le
  le_stop := Nat.le_trans hregion.le_stop hstop
  preceding := hregion.preceding
  following := by
    rw [hregion.following, hmore, ← List.append_assoc, ← List.map_append, List.append_assoc,
      Stream.between_append hregion.le_stop hstop]

theorem not_isError_of_leaf {parent : Node} {above : List (Nat × Node)} {position : Nat}
    {tokens : List Token}
    (hcursor : cursor ∈ Cursor.siblingsFrom parent above position (tokens.map .ofToken)) :
    cursor.focus.isError = false := by
  have hleaf : ∃ token, cursor.focus = .ofToken token := by
    apply Cursor.siblingsFrom_induction (P := fun _ node => ∃ token, node = .ofToken token) _ _
      hcursor
    · rintro depth node ⟨token, rfl⟩ child hchild
      cases hchild
    · intro node hnode
      obtain ⟨token, -, heq⟩ := List.mem_map.mp hnode
      exact ⟨token, heq.symm⟩
  obtain ⟨token, heq⟩ := hleaf
  rw [heq]
  rfl

/-- Nodes over a stretch of the stream, of which the error nodes are those of some reports. -/
structure Regions (stream : Stream) (start stop : Nat) (nodes : List Node)
    (reports : List Report) : Prop where
  start_le : start ≤ stop
  exists_region {parent : Node} {above : List (Nat × Node)} {front back : List Node}
    {cursor : Cursor} : parent.children = front ++ (nodes ++ back) →
      cursor ∈ Cursor.siblingsFrom parent above front.length nodes → cursor.focus.isError = true →
        ∃ report ∈ reports, IsRegion stream start stop
          (Cursor.leavesBefore above ++ front.flatMap Node.leaves)
          (back.flatMap Node.leaves ++ Cursor.leavesBehind above) report cursor

namespace Regions

variable {nodes others : List Node} {more : List Report}

theorem append (hfirst : Regions stream start middle nodes reports)
    (hsecond : Regions stream middle stop others more)
    (hnodes : nodes.flatMap Node.leaves = (stream.between start middle).map .ofToken)
    (hothers : others.flatMap Node.leaves = (stream.between middle stop).map .ofToken) :
    Regions stream start stop (nodes ++ others) (reports ++ more) where
  start_le := Nat.le_trans hfirst.start_le hsecond.start_le
  exists_region {parent above front back cursor} hparent hcursor herror := by
    rw [Cursor.siblingsFrom_append] at hcursor
    rw [List.append_assoc] at hparent
    rcases List.mem_append.mp hcursor with hcursor | hcursor
    · obtain ⟨report, hreport, hregion⟩ := hfirst.exists_region hparent hcursor herror
      rw [List.flatMap_append, List.append_assoc] at hregion
      exact ⟨report, List.mem_append_left _ hreport,
        hregion.widen_back hsecond.start_le hothers⟩
    · rw [← List.append_assoc] at hparent
      rw [← List.length_append] at hcursor
      obtain ⟨report, hreport, hregion⟩ := hsecond.exists_region hparent hcursor herror
      rw [List.flatMap_append, ← List.append_assoc] at hregion
      exact ⟨report, List.mem_append_right _ hreport,
        hregion.widen_front hfirst.start_le hnodes⟩

theorem ofLeaves (hstart : start ≤ stop) :
    Regions stream start stop ((stream.between start stop).map .ofToken) [] where
  start_le := hstart
  exists_region _ hcursor herror := by
    rw [not_isError_of_leaf hcursor] at herror
    cases herror

theorem around (hchildren : Regions stream start stop nodes reports) {kind : NodeKind}
    (hkind : kind ≠ .error) (offset : Nat) :
    Regions stream start stop [.around kind .none offset nodes] reports where
  start_le := hchildren.start_le
  exists_region {parent above front back cursor} hparent hcursor herror := by
    rw [Cursor.siblingsFrom, Cursor.siblingsFrom, List.append_nil,
      Cursor.descendantsFrom_eq] at hcursor
    rcases List.mem_cons.mp hcursor with heq | hbelow
    · subst heq
      exact absurd (beq_iff_eq.mp herror) hkind
    · have hself : (Node.around kind .none offset nodes).children = [] ++ (nodes ++ []) :=
        (List.append_nil nodes).symm
      obtain ⟨report, hreport, hregion⟩ := hchildren.exists_region hself hbelow herror
      rw [Cursor.leavesBefore_child hparent, Cursor.leavesBehind_child hparent] at hregion
      exact ⟨report, hreport, by simpa using hregion⟩

theorem ofReport (report : Report) :
    Regions stream report.position (report.position + report.extent)
      (report.node stream ::
        (splitLast (wordsAt stream report.position report.extent)).2.map .ofToken)
      [report] where
  start_le := Nat.le_add_right _ _
  exists_region {parent above front back cursor} hparent hcursor herror := by
    rw [Cursor.siblingsFrom, Cursor.descendantsFrom_eq] at hcursor
    rw [List.cons_append] at hparent
    rcases List.mem_append.mp hcursor with hself | hafter
    · rcases List.mem_cons.mp hself with heq | hbelow
      · subst heq
        refine ⟨report, List.mem_singleton.mpr rfl, rfl, Nat.le_refl _, Nat.le_refl _, ?_, ?_⟩
        · rw [Stream.between_self, List.map_nil, List.append_nil, Cursor.preceding,
            Cursor.leavesBefore_child hparent]
        · rw [Stream.between_self, List.append_nil, Cursor.following,
            Cursor.leavesBehind_child hparent, List.flatMap_append, Node.leaves_map_ofToken,
            List.append_assoc]
      · rw [not_isError_of_leaf hbelow] at herror
        cases herror
    · rw [not_isError_of_leaf hafter] at herror
      cases herror

end Regions

theorem regions_nodesOf (hkinds : ∀ kind, grammar.Mentions kind → kind ≠ .error)
    (hcovers : Parse.Covers grammar stream.size shapes reports start stop)
    (hstart : start ≤ stream.size) :
    Regions stream start stop (nodesOf stream shapes) reports := by
  induction hcovers with
  | nil start =>
      have hnone : Regions stream start start _ [] := Regions.ofLeaves (Nat.le_refl start)
      rwa [Stream.between_self] at hnone
  | token hlt hrest ih =>
      exact (Regions.ofLeaves (Nat.le_succ _)).append (ih hlt) (Node.leaves_map_ofToken _)
        (leaves_nodesOf hrest hlt)
  | node hkind hchildren hrest ihchildren ihrest =>
      have hmiddle := hchildren.stop_le_size hstart
      refine ((ihchildren hstart).around (hkinds _ hkind) _).append (ihrest hmiddle) ?_
        (leaves_nodesOf hrest hmiddle)
      rw [List.flatMap_singleton, Node.leaves_around (fun _ => Payload.noConfusion),
        leaves_nodesOf hchildren hstart]
  | @error report _ _ _ hextent hrest ih =>
      refine (Regions.ofReport report).append (ih hextent) ?_ (leaves_nodesOf hrest hextent)
      rw [List.flatMap_cons, Report.node, leaves_errorNode, Node.leaves_map_ofToken,
        ← List.map_append, splitLast_tokens]
      rfl

/-! ## The whole tree -/

theorem exists_of_mem_wordsAt {position extent : Nat} {word : Word}
    (hword : word ∈ wordsAt stream position extent) :
    ∃ other, position ≤ other ∧ other < position + extent ∧ stream.words[other]? = some word := by
  obtain ⟨index, hindex⟩ := List.mem_iff_getElem?.mp hword
  rw [wordsAt, Array.getElem?_toList, Array.getElem?_extract] at hindex
  split at hindex
  · exact ⟨position + index, Nat.le_add_right _ _, by omega, hindex⟩
  · cases hindex

theorem wordsAt_succ {position : Nat} (extent : Nat) {word : Word}
    (hword : stream.words[position]? = some word) :
    wordsAt stream position (extent + 1) = word :: wordsAt stream (position + 1) extent := by
  obtain ⟨hlt, rfl⟩ := Array.getElem?_eq_some_iff.mp hword
  simp [wordsAt, Array.toList_extract, List.extract, List.drop_eq_getElem_cons, hlt]

theorem between_splitLast {position extent : Nat} (hextent : position + extent ≤ stream.size) :
    stream.between 0 position ++ ((splitLast (wordsAt stream position extent)).1
        ++ ((splitLast (wordsAt stream position extent)).2
          ++ stream.between (position + extent) stream.size)) = stream.between 0 stream.size := by
  have hposition := Nat.le_add_right position extent
  have hwords : (wordsAt stream position extent).flatMap Word.tokens =
      stream.between position (position + extent) := rfl
  rw [← List.append_assoc (splitLast _).1, splitLast_tokens, hwords,
    Stream.between_append hposition hextent,
    Stream.between_append (Nat.zero_le _) (Nat.le_trans hposition hextent)]

theorem skips_of_exact (hgrouped : stream.Grouped) {report : Report}
    (hexact : report.IsExact stream) (hpos : 0 < report.extent)
    (hextent : report.position + report.extent ≤ stream.size) :
    report.expected.Skips (splitLast (wordsAt stream report.position report.extent)).1
      ((splitLast (wordsAt stream report.position report.extent)).2
        ++ stream.between (report.position + report.extent) stream.size) := by
  obtain ⟨position, extent, complaint, expected⟩ := report
  obtain ⟨extent, rfl⟩ := Nat.exists_eq_add_one.mpr hpos
  have hwords : ∀ word ∈ wordsAt stream position (extent + 1), word ∈ stream.words :=
    fun _ => mem_words
  have htoken : ∀ word ∈ wordsAt stream position (extent + 1), word.token.isTrivia = false :=
    fun word hword => hgrouped.token word (hwords word hword)
  obtain ⟨hinner, hafter⟩ := filter_trivia_splitLast htoken
    fun word hword => hgrouped.trivia word (hwords word hword)
  have hfirst : position < stream.size := by
    change position + (extent + 1) ≤ stream.size at hextent
    omega
  refine ⟨?_, ?_, ?_, ?_⟩
  · intro token hhead
    rw [splitLast_head?] at hhead
    obtain ⟨word, hword, rfl⟩ := Option.map_eq_some_iff.mp hhead
    exact htoken word (List.mem_of_head? hword)
  · intro token hlast
    rw [splitLast_getLast?] at hlast
    obtain ⟨word, hword, rfl⟩ := Option.map_eq_some_iff.mp hlast
    exact htoken word (List.mem_of_getLast? hword)
  · rw [hinner, wordsAt_succ extent (Array.getElem?_eq_getElem hfirst)]
    intro token hmem
    obtain ⟨word, hword, rfl⟩ := List.mem_map.mp hmem
    obtain ⟨other, hlow, hhigh, hother⟩ := exists_of_mem_wordsAt hword
    rw [← Stream.tokenAt_eq hother]
    exact hexact.passes other hlow (by rwa [Nat.add_assoc, Nat.add_comm 1] at hhigh)
  · rw [List.filter_append, hafter, List.nil_append]
    intro token hhead
    rcases Nat.lt_or_eq_of_le hextent with hlt | heq
    · have hword := Array.getElem?_eq_getElem hlt
      have hmem := Array.getElem_mem hlt
      rw [← Stream.between_append (Nat.le_succ _) hlt, Stream.between_succ hword, Word.tokens,
        List.filter_append, filter_trivia_word (hgrouped.token _ hmem) (hgrouped.trivia _ hmem),
        ← Stream.tokenAt_eq hword] at hhead
      rw [← Option.some.inj hhead]
      exact hexact.stops hpos hlt
    · rw [heq, Stream.between_self] at hhead
      cases hhead

theorem exists_region_rootOf (hkinds : ∀ kind, grammar.Mentions kind → kind ≠ .error)
    {kind : NodeKind} (hkind : kind ≠ .error)
    (hcovers : Parse.Covers grammar stream.size shapes reports 0 stop) {cursor : Cursor}
    (hcursor : cursor ∈ (Cursor.ofRoot (rootOf stream kind shapes)).descendants)
    (herror : cursor.focus.isError = true) :
    ∃ report ∈ reports, IsRegion stream 0 stop (stream.leading.map .ofToken) [] report cursor := by
  rw [Cursor.descendants_ofRoot, rootOf, Node.around, Node.children_mk,
    Cursor.siblingsFrom_append] at hcursor
  rcases List.mem_cons.mp hcursor with heq | hbelow
  · subst heq
    exact absurd (beq_iff_eq.mp herror) hkind
  · rcases List.mem_append.mp hbelow with hleaf | hnode
    · rw [not_isError_of_leaf hleaf] at herror
      cases herror
    · rw [Nat.zero_add] at hnode
      have hroot : (rootOf stream kind shapes).children =
          stream.leading.map .ofToken ++ (nodesOf stream shapes ++ []) := by
        rw [List.append_nil]
        rfl
      obtain ⟨report, hreport, hregion⟩ :=
        (regions_nodesOf hkinds hcovers (Nat.zero_le _)).exists_region hroot hnode herror
      rw [Node.leaves_map_ofToken] at hregion
      exact ⟨report, hreport, hregion⟩

end Shape

namespace Parse

open Shape

variable {rules : Rules} {grammar : Grammar} {start : NodeKind} {tokens : List Token}

/-- An error node with children holds exactly the tokens from one that does not fit to the last one
before a token that was expected, or before the end of the text. -/
theorem parseTokens_skips (hbuild : build rules = .ok grammar)
    (herror : NodeKind.error ∉ rules.map (·.1)) (hstart : grammar.contains start = true)
    (settings : Settings) (hordered : Token.Ordered tokens) :
    ∃ parsed, parseTokens grammar settings start tokens = .ok parsed ∧
      ∀ cursor ∈ (Cursor.ofRoot parsed.tree.root).descendants, cursor.focus.isError = true →
        ∃ expected before region rest, cursor.focus.payload = .expected expected ∧
          tokens.takeWhile (·.kind != .eof) = before ++ region ++ rest ∧
          cursor.preceding = before.map Node.ofToken ∧
          cursor.focus.children = region.map Node.ofToken ∧
          cursor.following = rest.map Node.ofToken ∧
          (cursor.focus.children ≠ [] → expected.Skips region rest) := by
  have hkinds : ∀ kind, grammar.contains kind = true → kind ≠ .error := by
    intro kind hkind heq
    exact herror (heq ▸ (contains_iff hbuild).mp hkind)
  obtain ⟨shapes, reports, problems, htraced, -, hparse⟩ := parse_eq grammar settings start hordered
  refine ⟨_, parseTokens_eq hstart settings hparse, fun cursor hcursor hisError => ?_⟩
  obtain ⟨report, hreport, hregion⟩ := exists_region_rootOf
    (fun kind hkind => hkinds kind (contains_of_mentions hbuild hkind)) (hkinds start hstart)
    htraced.covers hcursor hisError
  have hexact := htraced.exact (Stream.final_ofTokens tokens) rfl report hreport
  have hextent : report.position + report.extent ≤ (Stream.ofTokens tokens).size :=
    htraced.covers.extent_le hreport
  let words := wordsAt (.ofTokens tokens) report.position report.extent
  refine ⟨report.expected, (Stream.ofTokens tokens).leading
      ++ (Stream.ofTokens tokens).between 0 report.position, (splitLast words).1,
    (splitLast words).2 ++ (Stream.ofTokens tokens).between (report.position + report.extent)
      (Stream.ofTokens tokens).size, ?_, ?_, ?_, ?_, ?_, fun hchildren => ?_⟩
  · rw [hregion.focus]
    rfl
  · rw [← Stream.ofTokens_tokens, ← between_splitLast hextent, List.append_assoc,
      List.append_assoc]
  · rw [hregion.preceding, List.map_append]
    rfl
  · rw [hregion.focus]
    rfl
  · rw [hregion.following, List.append_nil]
    rfl
  · refine skips_of_exact (Stream.grouped_ofTokens tokens) hexact ?_ hextent
    refine Nat.pos_of_ne_zero fun hnone => hchildren ?_
    rw [hregion.focus, Report.node, hnone]
    simp [errorNode, wordsAt, Node.around, splitLast]

def names : Rules :=
  [(.construct .listExpression,
    [.all [.token .leftBracket], .many [.token .varId], .all [.token .rightBracket]])]

/-- Two numbers, with a blank between them and another one behind, in front of a name. -/
def strayNumbers : List Token :=
  [.covering .leftBracket 0 "[", .covering .integer 1 "1", .covering .whitespace 2 " ",
    .covering .integer 3 "2", .covering .whitespace 4 " ", .covering .varId 5 "x",
    .covering .rightBracket 6 "]"]

theorem parseTokens_skips_of_strayNumbers :
    ∃ parsed, parseTokens (compile names) .default (.construct .listExpression) strayNumbers =
        .ok parsed ∧
      parsed.tree.root.errors.map (·.children.length) = [3] ∧
      ∀ cursor ∈ (Cursor.ofRoot parsed.tree.root).descendants, cursor.focus.isError = true →
        ∃ expected before region rest, cursor.focus.payload = .expected expected ∧
          strayNumbers.takeWhile (·.kind != .eof) = before ++ region ++ rest ∧
          cursor.preceding = before.map Node.ofToken ∧
          cursor.focus.children = region.map Node.ofToken ∧
          cursor.following = rest.map Node.ofToken ∧
          (cursor.focus.children ≠ [] → expected.Skips region rest) := by
  obtain ⟨parsed, hparse, hregions⟩ := parseTokens_skips (show build names = _ from rfl)
    (by decide) (show (compile names).contains (.construct .listExpression) = true by decide)
    .default (show Token.Ordered strayNumbers by unfold Token.Ordered; decide)
  have hlengths : (parseTokens (compile names) .default (.construct .listExpression)
      strayNumbers).toOption.map (·.tree.root.errors.map (·.children.length)) = some [3] := by
    rw [parseTokens_words]
    rfl
  rw [hparse] at hlengths
  exact ⟨parsed, hparse, Option.some.inj hlengths, hregions⟩

end Parse

end LosslessTree
