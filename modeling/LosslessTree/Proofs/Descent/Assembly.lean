import LosslessTree.Proofs.Descent.Steps
import LosslessTree.Proofs.Parse.Nodes

/-!
The events of some shapes tell of the tree over these shapes. Tokens that are taken one by one are
given to the innermost open node in the same order as the leaves of their words.
-/

namespace LosslessTree

namespace Shape

theorem splitLast_concat (words : List Word) (last : Word) :
    splitLast (words ++ [last]) = (words.flatMap Word.tokens ++ [last.token], last.trivia) := by
  induction words with
  | nil => rfl
  | cons word rest ih =>
      obtain ⟨next, others, hrest⟩ : ∃ next others, rest ++ [last] = next :: others :=
        List.exists_cons_of_ne_nil (by simp)
      rw [List.cons_append, hrest, splitLast, ← hrest, ih]
      · simp [Word.tokens]
      · simp

theorem wordsAt_concat {stream : Stream} {position extent : Nat}
    (hextent : position + extent < stream.size) :
    wordsAt stream position (extent + 1) =
      wordsAt stream position extent ++ [stream.words[position + extent]] := by
  rw [wordsAt, ← Nat.add_assoc, Array.extract_succ_right (by omega) hextent, Array.toList_push]
  rfl

/-- The tokens of an error node end where the reach of its words ends, and blanks follow. -/
theorem reach_eq {stream : Stream} {position extent : Nat}
    (hextent : position + extent ≤ stream.size) :
    let (inner, after) := splitLast (wordsAt stream position extent)
    reach stream position extent = stream.indexOf position + inner.length ∧
      stream.indexOf position + inner.length + after.length =
        stream.indexOf (position + extent) := by
  have hlength := congrArg List.length (splitLast_tokens (wordsAt stream position extent))
  have hstop := stream.indexOf_add (Nat.le_add_right position extent)
  rw [Stream.between, ← wordsAt, ← hlength, List.length_append] at hstop
  refine ⟨?_, by rw [hstop, Nat.add_assoc]⟩
  cases extent with
  | zero => simp [reach, wordsAt, splitLast]
  | succ extent =>
      rw [wordsAt_concat hextent, splitLast_concat, reach,
        Stream.indexOf_add (Nat.le_add_right position extent), List.length_append]
      rfl

end Shape

namespace Descent

namespace Assembly

variable {tape : Tape}

/-- The tokens that are taken become the next leaves of the innermost open node. -/
theorem foldlM_taking {tokens : List Token} {start : Nat}
    (hfront : tokens <+: tape.tokens.toList.drop start) (builder : Builder) (inner : Open)
    (outer : List Open) (root : Option Nat) :
    (Event.taking start (start + tokens.length)).foldlM (step tape) ⟨builder, inner :: outer, root⟩ =
      .ok ⟨(builder.leaves tokens).2,
        { inner with children := inner.children ++ (builder.leaves tokens).1.toArray } :: outer,
        root⟩ := by
  induction tokens generalizing start builder inner with
  | nil => simp [Event.taking_self, Builder.leaves, pure, Except.pure]
  | cons token rest ih =>
      have htoken := Tape.tokenAt_of_cons hfront
      have hrest : rest <+: tape.tokens.toList.drop (start + 1) := by
        obtain ⟨more, hmore⟩ := hfront
        rw [← List.drop_drop, ← hmore]
        exact List.prefix_append rest more
      have hsize : start ≤ tape.size := by
        have hlength := hfront.length_le
        rw [List.length_cons, List.length_drop, Array.length_toList] at hlength
        exact Nat.le_of_lt (Nat.lt_of_sub_pos (Nat.lt_of_lt_of_le (Nat.succ_pos _) hlength))
      have hstop : start + (token :: rest).length = start + 1 + rest.length := by
        rw [List.length_cons]
        omega
      rw [hstop, Event.taking_cons (by omega), List.foldlM_cons]
      simp only [step, hsize, if_true, htoken, attach]
      exact (ih hrest _ _).trans (by simp [Builder.leaves])

def given (inner : Open) (outer : List Open) (root : Option Nat) (children : List Nat × Builder) :
    Assembly :=
  ⟨children.2, { inner with children := inner.children ++ children.1.toArray } :: outer, root⟩

/-- What finishes a node gives it to the open one around it. -/
theorem foldlM_finish (builder : Builder) (own inner : Open) (outer : List Open)
    (root : Option Nat) :
    [Event.finish].foldlM (step tape) ⟨builder, own :: inner :: outer, root⟩ =
      (builder.around own.kind own.payload own.offset own.children.toList).map fun result =>
        given inner outer root ([result.1], result.2) := by
  rw [List.foldlM_cons]
  simp only [step]
  cases builder.around own.kind own.payload own.offset own.children.toList with
  | error fault => rfl
  | ok result => simp [Except.map, given, attach, pure, Except.pure, bind, Except.bind]

variable {shape : Shape} {shapes : List Shape} (builder : Builder) (inner : Open)
  (outer : List Open) (root : Option Nat)

theorem foldlM_append_events
    (hshape : (shape.events tape.words).foldlM (step tape) ⟨builder, inner :: outer, root⟩ =
      (shape.build tape.words builder).map (given inner outer root))
    (hshapes : ∀ builder inner,
      (Shape.eventsOf tape.words shapes).foldlM (step tape) ⟨builder, inner :: outer, root⟩ =
        (Shape.buildList tape.words shapes builder).map (given inner outer root)) :
    (Shape.eventsOf tape.words (shape :: shapes)).foldlM (step tape)
        ⟨builder, inner :: outer, root⟩ =
      (Shape.buildList tape.words (shape :: shapes) builder).map (given inner outer root) := by
  rw [Shape.eventsOf, Shape.buildList, List.foldlM_append, hshape]
  cases shape.build tape.words builder with
  | error fault => rfl
  | ok children =>
      obtain ⟨ids, middle⟩ := children
      refine (hshapes middle _).trans ?_
      cases hrest : Shape.buildList tape.words shapes middle with
      | error fault => simp [hrest, Except.map]
      | ok more => simp [hrest, Except.map, given]

theorem foldlM_token {position : Nat} (hposition : position < tape.words.size) :
    (Shape.events tape.words (.token position)).foldlM (step tape)
        ⟨builder, inner :: outer, root⟩ =
      (Shape.build tape.words (.token position) builder).map (given inner outer root) := by
  have hword := Array.getElem?_eq_getElem hposition
  have htaken := foldlM_taking (Tape.word_isPrefix hword) builder inner outer root
  rw [Shape.events, Shape.build, hword, Stream.indexOf_succ hword]
  exact htaken

theorem foldlM_node (kind : NodeKind) (position : Nat)
    (hshapes : ∀ inner outer,
      (Shape.eventsOf tape.words shapes).foldlM (step tape) ⟨builder, inner :: outer, root⟩ =
        (Shape.buildList tape.words shapes builder).map (given inner outer root)) :
    (Shape.events tape.words (.node kind position shapes)).foldlM (step tape)
        ⟨builder, inner :: outer, root⟩ =
      (Shape.build tape.words (.node kind position shapes) builder).map
        (given inner outer root) := by
  rw [Shape.events, Shape.build, List.cons_append, List.foldlM_cons]
  change (Shape.eventsOf tape.words shapes ++ [Event.finish]).foldlM (step tape)
    ⟨builder, _, root⟩ = _
  rw [List.foldlM_append, hshapes]
  cases Shape.buildList tape.words shapes builder with
  | error fault => rfl
  | ok children =>
      obtain ⟨ids, middle⟩ := children
      refine (foldlM_finish middle _ inner outer root).trans ?_
      simp only [Array.empty_append]
      cases middle.around kind .none (tape.words.offsetAt position) ids with
      | error fault => rfl
      | ok result => rfl

theorem foldlM_error (expected : Lookahead) {position extent : Nat}
    (hextent : position + extent ≤ tape.words.size) :
    (Shape.events tape.words (.error expected position extent)).foldlM (step tape)
        ⟨builder, inner :: outer, root⟩ =
      (Shape.build tape.words (.error expected position extent) builder).map
        (given inner outer root) := by
  obtain ⟨hbegin, hend⟩ := Shape.reach_eq hextent
  obtain ⟨rest, hrest⟩ := Tape.between_isPrefix (Nat.le_add_right position extent) hextent
  rw [Stream.between, ← Shape.wordsAt, ← Shape.splitLast_tokens, List.append_assoc] at hrest
  rw [Shape.events, Shape.build, if_neg (Nat.not_lt.mpr hextent), ← Shape.wordsAt, hbegin, ← hend,
    List.cons_append, List.foldlM_cons]
  generalize Shape.splitLast (Shape.wordsAt tape.words position extent) = split at hrest ⊢
  obtain ⟨own, after⟩ := split
  generalize tape.words.indexOf position = start at hrest ⊢
  have hafter : after <+: tape.tokens.toList.drop (start + own.length) := by
    refine ⟨rest, ?_⟩
    rw [← List.drop_drop, ← hrest, List.drop_left]
  have hown := foldlM_taking ⟨_, hrest⟩ builder
    ⟨.error, .expected expected, tape.words.offsetAt position, #[]⟩ (inner :: outer) root
  change (Event.taking start (start + own.length) ++ ([Event.finish]
    ++ Event.taking (start + own.length) (start + own.length + after.length))).foldlM (step tape)
      ⟨builder, _, root⟩ = _
  rw [List.foldlM_append, hown]
  refine (List.foldlM_append ..).trans ?_
  rw [foldlM_finish]
  simp only [Array.empty_append]
  cases (builder.leaves own).2.around .error (.expected expected)
      (tape.words.offsetAt position) (builder.leaves own).1 with
  | error fault => rfl
  | ok result =>
      refine (foldlM_taking hafter result.2 _ outer root).trans ?_
      simp [given, Except.map]

/-- The events of shapes give the innermost open node the same children as the shapes have. -/
theorem foldlM_events {grammar : Grammar} {reports : List Report} {start stop : Nat}
    (hcovers : Parse.Covers grammar tape.words.size shapes reports start stop) :
    (Shape.eventsOf tape.words shapes).foldlM (step tape) ⟨builder, inner :: outer, root⟩ =
      (Shape.buildList tape.words shapes builder).map (given inner outer root) := by
  induction hcovers generalizing builder inner outer with
  | nil => simp [Shape.eventsOf, Shape.buildList, given, pure, Except.pure, Except.map]
  | token hlt _ ih =>
      exact foldlM_append_events builder inner outer root
        (foldlM_token builder inner outer root hlt) fun builder inner => ih builder inner outer
  | node _ _ _ ihchildren ihrest =>
      exact foldlM_append_events builder inner outer root
        (foldlM_node builder inner outer root _ _ (ihchildren builder))
        fun builder inner => ihrest builder inner outer
  | error hextent _ ih =>
      exact foldlM_append_events builder inner outer root
        (foldlM_error builder inner outer root _ hextent)
        fun builder inner => ih builder inner outer

end Assembly

theorem start_words (tape : Tape) : tape.words.start = tape.offsetAt 0 := by
  have hfront : tape.words.leading <+: tape.tokens.toList.drop 0 := Tape.leading_isPrefix
  rw [Stream.start]
  cases hleading : tape.words.leading with
  | nil =>
      have hindex : tape.words.indexOf 0 = 0 := by simp [Stream.indexOf, hleading]
      rw [← hindex, Tape.offsetAt_indexOf, hindex]
  | cons token rest =>
      rw [hleading] at hfront
      have htoken := Tape.tokenAt_of_cons hfront
      rw [Tape.offsetAt, ← htoken]

variable {tape : Tape} {grammar : Grammar} {shapes : List Shape} {reports : List Report}
  (hcovers : Parse.Covers grammar tape.words.size shapes reports 0 tape.words.size)
  (kind : NodeKind)

include hcovers

/-- The outermost node gets the blanks in front of the first word as well. -/
theorem foldlM_root : (Shape.rootEvents tape kind shapes).foldlM (Assembly.step tape) .empty =
    let (leading, builder) := Builder.empty.leaves tape.words.leading
    (Shape.buildList tape.words shapes builder).bind fun (ids, builder) =>
      (builder.around kind .none (tape.offsetAt 0) (leading ++ ids)).map fun (root, builder) =>
        ⟨builder, [], some root⟩ := by
  have hfront : tape.words.leading <+: tape.tokens.toList.drop 0 := Tape.leading_isPrefix
  have hleading := Assembly.foldlM_taking hfront .empty ⟨kind, .none, tape.offsetAt 0, #[]⟩ [] none
  rw [Nat.zero_add, ← Tape.indexOf_zero] at hleading
  rw [Shape.rootEvents, List.append_assoc, List.cons_append, List.foldlM_cons]
  change (Event.taking 0 (tape.words.indexOf 0) ++ (Shape.eventsOf tape.words shapes ++
    [Event.finish])).foldlM (Assembly.step tape)
      ⟨.empty, [⟨kind, .none, tape.offsetAt 0, #[]⟩], none⟩ = _
  rw [List.foldlM_append, hleading]
  refine (List.foldlM_append ..).trans ?_
  rw [Assembly.foldlM_events _ _ _ _ hcovers]
  dsimp only
  cases Shape.buildList tape.words shapes (Builder.empty.leaves tape.words.leading).2 with
  | error fault => rfl
  | ok children =>
      obtain ⟨ids, builder⟩ := children
      simp only [Except.map, Except.bind, Assembly.given, bind, List.foldlM_cons, Assembly.step,
        List.append_toArray, List.nil_append]
      cases builder.around kind .none (tape.offsetAt 0)
        ((Builder.empty.leaves tape.words.leading).1 ++ ids) with
      | error fault => rfl
      | ok result => rfl

/-- The tree that the events of a whole parse tell of is the tree over its shapes. -/
theorem toTree_rootEvents :
    toTree tape (Shape.rootEvents tape kind shapes) = Shape.toTree tape.words kind shapes := by
  rw [toTree, foldlM_root hcovers kind, Shape.toTree, start_words]
  dsimp only
  cases Shape.buildList tape.words shapes (Builder.empty.leaves tape.words.leading).2 with
  | error fault => rfl
  | ok children =>
      obtain ⟨ids, builder⟩ := children
      dsimp only [Except.bind]
      cases builder.around kind .none (tape.offsetAt 0)
        ((Builder.empty.leaves tape.words.leading).1 ++ ids) with
      | error fault => rfl
      | ok result => rfl

end Descent

end LosslessTree
