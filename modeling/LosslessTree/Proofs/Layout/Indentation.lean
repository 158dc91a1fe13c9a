import Mathlib.Data.List.Chain
import LosslessTree.Proofs.Layout.Lines

/-!
What indentation closes. The columns of the blocks above the innermost bracket rise from the outer
ones to the inner ones, so closing from the top as long as a block is indented past the line closes
all blocks that are, and no other one.
-/

namespace LosslessTree

namespace Layout

open Token

/-! ## Columns of blocks -/

/-- The columns of the blocks that no bracket keeps apart, the innermost first. -/
def indents : List Context → List Nat
  | .block column _ :: below => column :: indents below
  | _ => []

/-- Whether a context is a block that is indented past a column. -/
def Context.isPast (column : Nat) : Context → Bool
  | .block indent _ => column < indent
  | .bracket => false

/-- The contexts without the blocks above the innermost bracket that are indented past a column. -/
def dedent (column : Nat) (contexts : List Context) : List Context :=
  (contexts.takeWhile Context.isBlock).filter (!·.isPast column) ++
    contexts.dropWhile Context.isBlock

theorem dedent_block (column indent : Nat) (ofLet : Bool) (below : List Context) :
    dedent column (.block indent ofLet :: below) =
      if column < indent then dedent column below
      else .block indent ofLet :: dedent column below := by
  rw [dedent, List.takeWhile_cons_of_pos rfl, List.dropWhile_cons_of_pos rfl, List.filter_cons]
  by_cases hpast : column < indent <;> simp [dedent, Context.isPast, hpast]

theorem dedent_of_le {column : Nat} {contexts : List Context}
    (hle : ∀ indent ∈ indents contexts, indent ≤ column) : dedent column contexts = contexts := by
  induction contexts with
  | nil => rfl
  | cons context below ih =>
      cases context with
      | bracket => rfl
      | block indent ofLet =>
          obtain ⟨hindent, hbelow⟩ := List.forall_mem_cons.mp hle
          rw [dedent_block, if_neg (Nat.not_lt.mpr hindent), ih hbelow]

theorem indents_dedent (column : Nat) (contexts : List Context) :
    indents (dedent column contexts) = (indents contexts).filter (· ≤ column) := by
  induction contexts with
  | nil => rfl
  | cons context below ih =>
      cases context with
      | bracket => rfl
      | block indent ofLet =>
          rw [dedent_block, indents]
          split
          · next hpast => rw [ih, List.filter_cons_of_neg (by simpa using hpast)]
          · next hpast => rw [indents, ih, List.filter_cons_of_pos (by simpa using hpast)]

theorem countP_of_le {column : Nat} {columns : List Nat} (hle : ∀ indent ∈ columns, indent ≤ column) :
    columns.countP (column < ·) = 0 :=
  List.countP_eq_zero.mpr fun indent hindent => by simpa using hle indent hindent

theorem isAt_iff {column : Nat} {contexts : List Context} :
    isAt column contexts = true ↔ (indents contexts).head? = some column := by
  cases contexts with
  | nil => simp [isAt, indents]
  | cons context below =>
      cases context with
      | bracket => simp [isAt, indents]
      | block indent _ =>
          rw [isAt, indents, List.head?_cons, Option.some.injEq, beq_iff_eq]
          exact eq_comm

/-- Where columns rise, closing from the top closes all blocks that are indented past a column. -/
theorem closeDeeper_eq {contexts : List Context} (hrises : (indents contexts).Pairwise (· > ·))
    (column : Nat) :
    closeDeeper column contexts =
      ((indents contexts).countP (column < ·), dedent column contexts) := by
  induction contexts with
  | nil => rfl
  | cons context below ih =>
      cases context with
      | bracket => rfl
      | block indent ofLet =>
          obtain ⟨hindent, hbelow⟩ := List.pairwise_cons.mp hrises
          unfold closeDeeper
          rw [dedent_block, indents]
          split
          · next hpast => rw [ih hbelow, List.countP_cons_of_pos (by simpa using hpast)]
          · next hpast =>
              have hle : ∀ outer ∈ indents below, outer ≤ column := fun outer houter =>
                Nat.le_of_lt (Nat.lt_of_lt_of_le (hindent outer houter) (Nat.not_lt.mp hpast))
              rw [dedent_of_le hle, List.countP_cons_of_neg (by simpa using hpast),
                countP_of_le hle]

/-! ## Columns rise -/

def Above : Context → Context → Prop
  | .block inner _, .block outer _ => outer < inner
  | _, _ => True

/-- Contexts in which each block is indented further than the one it lies in, unless a bracket is
between them. -/
def Rising (contexts : List Context) : Prop := contexts.IsChain Above

theorem Rising.indents {contexts : List Context} (hrising : Rising contexts) :
    (indents contexts).Pairwise (· > ·) := by
  rw [← List.isChain_iff_pairwise]
  induction contexts with
  | nil => exact .nil
  | cons context below ih =>
      obtain ⟨habove, hbelow⟩ := List.isChain_cons.mp hrising
      cases context with
      | bracket => exact .nil
      | block column ofLet =>
          refine List.isChain_cons.mpr ⟨fun outer houter => ?_, ih hbelow⟩
          cases below with
          | nil => cases houter
          | cons context below =>
              cases context with
              | bracket => cases houter
              | block indent _ =>
                  obtain rfl : indent = outer := Option.some.inj houter
                  exact habove _ rfl

theorem closeDeeper_suffix (column : Nat) (contexts : List Context) :
    (closeDeeper column contexts).2 <:+ contexts := by
  induction contexts with
  | nil => exact List.suffix_rfl
  | cons context below ih =>
      cases context with
      | bracket => exact List.suffix_rfl
      | block indent ofLet =>
          unfold closeDeeper
          split
          · exact ih.trans (List.suffix_cons _ _)
          · exact List.suffix_rfl

theorem closeLet?_suffix {contexts left : List Context} {closed : Nat}
    (hlet : closeLet? contexts = some (closed, left)) :
    left <:+ contexts ∧ ∀ indent ∈ indents left, indent ∈ indents contexts := by
  induction contexts generalizing closed with
  | nil => cases hlet
  | cons context below ih =>
      cases context with
      | bracket => cases hlet
      | block column ofLet =>
          unfold closeLet? at hlet
          split at hlet
          · cases hlet
            exact ⟨List.suffix_cons _ _, fun _ hindent => List.mem_cons_of_mem _ hindent⟩
          · obtain ⟨⟨others, rest⟩, hbelow, heq⟩ := Option.map_eq_some_iff.mp hlet
            cases heq
            obtain ⟨hsuffix, hindents⟩ := ih hbelow
            exact ⟨hsuffix.trans (List.suffix_cons _ _),
              fun indent hindent => List.mem_cons_of_mem _ (hindents indent hindent)⟩

theorem closeBracket?_suffix {contexts left : List Context} {closed : Nat}
    (hbracket : closeBracket? contexts = some (closed, left)) : left <:+ contexts := by
  induction contexts generalizing closed with
  | nil => cases hbracket
  | cons context below ih =>
      cases context with
      | bracket =>
          cases hbracket
          exact List.suffix_cons _ _
      | block column ofLet =>
          obtain ⟨⟨others, rest⟩, hbelow, heq⟩ := Option.map_eq_some_iff.mp hbracket
          cases heq
          exact (ih hbelow).trans (List.suffix_cons _ _)

theorem closeBy_suffix (kind : TokenKind) (contexts : List Context) :
    (closeBy kind contexts).2 <:+ contexts := by
  unfold closeBy
  split
  · cases hlet : closeLet? contexts with
    | none => exact List.suffix_rfl
    | some result => exact (closeLet?_suffix hlet).1
  · split
    · cases hbracket : closeBracket? contexts with
      | none => exact List.suffix_rfl
      | some result => exact closeBracket?_suffix hbracket
    · exact List.suffix_rfl

/-- Only a closing bracket uncovers blocks. -/
theorem indents_closeBy {kind : TokenKind} (hclosing : kind.isClosingBracket = false)
    (contexts : List Context) :
    ∀ indent ∈ indents (closeBy kind contexts).2, indent ∈ indents contexts := by
  unfold closeBy
  rw [hclosing]
  split
  · cases hlet : closeLet? contexts with
    | none => exact fun _ => id
    | some result => exact (closeLet?_suffix hlet).2
  · exact fun _ => id

theorem lt_of_isDeeper {contexts : List Context} (hrises : (indents contexts).Pairwise (· > ·))
    {column : Nat} (hdeeper : isDeeper column contexts = true) :
    ∀ indent ∈ indents contexts, indent < column := by
  cases contexts with
  | nil => exact fun _ hindent => absurd hindent List.not_mem_nil
  | cons context below =>
      cases context with
      | bracket => exact fun _ hindent => absurd hindent List.not_mem_nil
      | block indent ofLet =>
          have hindent : indent < column := by simpa [isDeeper] using hdeeper
          obtain ⟨hbelow, -⟩ := List.pairwise_cons.mp hrises
          exact List.forall_mem_cons.mpr
            ⟨hindent, fun outer houter => Nat.lt_trans (hbelow outer houter) hindent⟩

/-- A pending block opens in front of a token if it is indented past all others, and otherwise leaves
the contexts as they are. -/
theorem openPending_opens (kind : TokenKind) (state : State) :
    ((openPending kind state).2.2 = false ∧ (openPending kind state).2.1 = state.contexts) ∨
      (openPending kind state).2.2 = true ∧ isDeeper state.column state.contexts = true ∧
        ∃ ofLet, (openPending kind state).2.1 = .block state.column ofLet :: state.contexts := by
  unfold openPending
  repeat' split
  · exact .inl ⟨rfl, rfl⟩
  · next hdeeper => exact .inr ⟨rfl, hdeeper, _, rfl⟩
  · exact .inl ⟨rfl, rfl⟩
  · exact .inl ⟨rfl, rfl⟩

theorem Rising.block {contexts : List Context} (hrising : Rising contexts) {column : Nat}
    (hdeeper : isDeeper column contexts = true) (ofLet : Bool) :
    Rising (.block column ofLet :: contexts) := by
  refine List.isChain_cons.mpr ⟨fun outer houter => ?_, hrising⟩
  cases contexts with
  | nil => cases houter
  | cons context below =>
      obtain rfl : context = outer := Option.some.inj houter
      cases context with
      | bracket => exact trivial
      | block indent _ =>
          change indent < column
          simpa [isDeeper] using hdeeper

theorem Rising.bracket {contexts : List Context} (hrising : Rising contexts) :
    Rising (.bracket :: contexts) :=
  List.isChain_cons.mpr ⟨fun _ _ => trivial, hrising⟩

theorem Rising.openPending {state : State} (hrising : Rising state.contexts) (kind : TokenKind) :
    Rising (openPending kind state).2.1 := by
  rcases openPending_opens kind state with ⟨-, hcontexts⟩ | ⟨-, hdeeper, ofLet, hcontexts⟩
  · rwa [hcontexts]
  · rw [hcontexts]
    exact hrising.block hdeeper ofLet

theorem Rising.arrive {state : State} (hrising : Rising state.contexts) (kind : TokenKind) :
    Rising (arrive kind state).2 := by
  rw [← (column_decideModule kind state).2.2] at hrising
  have hopened := hrising.openPending kind
  unfold Layout.arrive
  dsimp only
  split
  · exact hopened.suffix (closeDeeper_suffix _ _)
  · exact hopened

theorem Rising.step {state : State} (hrising : Rising state.contexts) (token : Token) :
    Rising (step token state).2.contexts := by
  have hleft : Rising (closeBy token.kind (Layout.arrive token.kind state).2).2 :=
    (hrising.arrive token.kind).suffix (closeBy_suffix token.kind _)
  rw [step_eq]
  change Rising (if token.kind.isOpeningBracket then _ else _)
  split
  · exact hleft.bracket
  · exact hleft

/-- In every state that is reached columns rise. -/
theorem Rising.reach {state : State} (hrising : Rising state.contexts) (before : List Token) :
    Rising (reach state before).contexts := by
  induction before generalizing state with
  | nil => exact hrising
  | cons token rest ih =>
      unfold Layout.reach
      split
      · exact ih hrising
      · exact ih (hrising.step token)

/-! ## The marks of a line -/

/-- What a line at a column makes of the blocks that are open in front of its first token, the
innermost of which may have opened just there: all blocks that are indented past it end, and if the
innermost of the others is at its column, and no new one, an item of it begins. -/
structure Lined (column : Nat) (opened : List Context) (justOpened : Bool) (marks : List TokenKind)
    (left : List Context) : Prop where
  left_eq : left = dedent column opened
  marks_eq : marks = List.replicate ((indents opened).countP (column < ·)) .rightBrace ++
    if justOpened = false ∧ (indents left).head? = some column then [.semi] else []

theorem beginLine_lined {contexts : List Context} (hrises : (indents contexts).Pairwise (· > ·))
    (column : Nat) :
    Lined column contexts false (beginLine column contexts).1 (beginLine column contexts).2 where
  left_eq := by simp only [beginLine, closeDeeper_eq hrises]
  marks_eq := by simp only [beginLine, closeDeeper_eq hrises, isAt_iff, true_and]

/-- A block that opens in front of a token is the innermost one and at its column, so that a line ends
nothing and begins no item. -/
theorem opened_lined {contexts : List Context} (hrises : (indents contexts).Pairwise (· > ·))
    {column : Nat} (hdeeper : isDeeper column contexts = true) (ofLet : Bool) :
    Lined column (.block column ofLet :: contexts) true [] (.block column ofLet :: contexts) := by
  have hle : ∀ indent ∈ indents (.block column ofLet :: contexts), indent ≤ column :=
    List.forall_mem_cons.mpr ⟨Nat.le_refl _, fun indent hindent =>
      Nat.le_of_lt (lt_of_isDeeper hrises hdeeper indent hindent)⟩
  exact ⟨(dedent_of_le hle).symm, by rw [countP_of_le hle]; rfl⟩

theorem Lined.le {column : Nat} {opened left : List Context} {justOpened : Bool}
    {marks : List TokenKind} (hlined : Lined column opened justOpened marks left) :
    ∀ indent ∈ indents left, indent ≤ column := by
  rw [hlined.left_eq, indents_dedent]
  intro indent hindent
  simpa using (List.mem_filter.mp hindent).2

theorem exists_lined {state : State} (hrising : Rising state.contexts) (kind : TokenKind) :
    ∃ lined left,
      arrive kind state = ((openPending kind (decideModule kind state)).1 ++ lined, left) ∧
      (state.fresh = true → Lined state.column (openPending kind (decideModule kind state)).2.1
        (openPending kind (decideModule kind state)).2.2 lined left) ∧
      (state.fresh = false →
        lined = [] ∧ left = (openPending kind (decideModule kind state)).2.1) := by
  obtain ⟨hcolumn, -, hcontexts⟩ := column_decideModule kind state
  rw [← hcontexts] at hrising
  have hopens := openPending_opens kind (decideModule kind state)
  have hrises := (hrising.openPending kind).indents
  unfold arrive
  dsimp only
  generalize openPending kind (decideModule kind state) = opening at hopens hrises ⊢
  obtain ⟨marks, opened, justOpened⟩ := opening
  cases hfresh : state.fresh with
  | false => exact ⟨[], opened, by simp, nofun, fun _ => ⟨rfl, rfl⟩⟩
  | true =>
      rcases hopens with ⟨hnew, -⟩ | ⟨hnew, hdeeper, ofLet, hblock⟩
      · obtain rfl : justOpened = false := hnew
        have hline := beginLine_lined hrises state.column
        exact ⟨_, _, rfl, fun _ => hline, nofun⟩
      · obtain rfl : justOpened = true := hnew
        obtain rfl : opened = _ := hblock
        rw [hcolumn] at hdeeper ⊢
        have hopened := opened_lined hrising.indents hdeeper ofLet
        exact ⟨[], _, by simp, fun _ => hopened, nofun⟩

/-- Behind a token that is no closing bracket there are no blocks above the innermost bracket but
those that the token arrived in. -/
theorem indents_step {token : Token} (hclosing : token.kind.isClosingBracket = false)
    (state : State) :
    ∀ indent ∈ indents (step token state).2.contexts,
      indent ∈ indents (arrive token.kind state).2 := by
  rw [step_eq]
  change ∀ indent ∈ indents (if token.kind.isOpeningBracket then _ else _), _
  split
  · exact fun _ hindent => absurd hindent List.not_mem_nil
  · exact indents_closeBy hclosing _

/-- A `do` in a module, and a line that begins an item of its block. -/
def doLines : List Token :=
  [.covering .varId 0 "x", .covering .whitespace 1 " ", .covering .equals 2 "=",
    .covering .whitespace 3 " ", .covering .kwDo 4 "do", .covering .whitespace 6 " ",
    .covering .varId 7 "y", .covering .whitespace 8 "\n       "]

theorem ofText_doLines :
    Token.ofText "x = do y\n       z" = doLines ++ .covering .varId 16 "z" :: [.eof 17] := by
  decide +kernel

theorem finish_eq (state : State) :
    ∃ opened, opened ∈ [[], [TokenKind.leftBrace, .rightBrace]] ∧
      finish state =
        opened ++ List.replicate (state.contexts.countP Context.isBlock) .rightBrace := by
  refine ⟨_, ?_, by rw [finish, List.map_const', ← List.countP_eq_length_filter]⟩
  split <;> simp

/-- The marks of indentation. In front of a token that begins a line all blocks above the innermost
bracket end that are indented past it, and an item begins of the innermost block that is left if that
was open before and is at the column of the token. A token that begins no line ends no block by its
place and begins no item. At all times the columns of the blocks above the innermost bracket rise, and
behind a line's first token none of them is indented past it, unless the token closes a bracket and
thereby uncovers the blocks around that. The end of the text ends all blocks and begins no item. -/
theorem insertMarks_indents (mode : Mode) {text : String} {before after : List Token}
    {token : Token} (hscan : Token.ofText text = before ++ token :: after)
    (htrivia : token.isTrivia = false) :
    let state := reach (start mode) before
    let behind := (step token state).2
    let column := columnAfter (chars before)
    let opening := openPending token.kind (decideModule token.kind state)
    (indents state.contexts).Pairwise (· > ·) ∧
      (token.kind = .eof → ∃ opened, opened ∈ [[], [TokenKind.leftBrace, .rightBrace]] ∧
        insertMarks mode (Token.ofText text) = marked (start mode) before ++
          (marksAt token (opened ++
            List.replicate (state.contexts.countP Context.isBlock) .rightBrace) ++ [token])) ∧
      (token.kind ≠ .eof →
        (indents behind.contexts).Pairwise (· > ·) ∧ .semi ∉ opening.1 ∧
          (opening.2.2 = false ∧ opening.2.1 = state.contexts ∨
            opening.2.2 = true ∧ ∃ ofLet, opening.2.1 = .block column ofLet :: state.contexts) ∧
          ∃ lined left,
            insertMarks mode (Token.ofText text) = marked (start mode) before ++
              (marksAt token (opening.1 ++ lined ++
                List.replicate (closeBy token.kind left).1 .rightBrace) ++
                  token :: run behind after) ∧
            (StartsLine before → Lined column opening.2.1 opening.2.2 lined left ∧
              (∀ indent ∈ indents left, indent ≤ column) ∧
              (token.kind.isClosingBracket = false →
                ∀ indent ∈ indents behind.contexts, indent ≤ column)) ∧
            (¬StartsLine before → lined = [] ∧ left = opening.2.1)) := by
  intro state behind column opening
  have hrising : Rising state.contexts := Rising.reach (show Rising [] from .nil) before
  have hrun : insertMarks mode (Token.ofText text) =
      marked (start mode) before ++ run state (token :: after) := by
    rw [insertMarks, hscan, run_append _ (ends_of_scan hscan)]
  refine ⟨hrising.indents, fun heof => ?_, fun hkind => ?_⟩
  · obtain ⟨opened, hopened, hfinish⟩ := finish_eq state
    refine ⟨opened, hopened, ?_⟩
    rw [hrun, run, if_neg (Bool.eq_false_iff.mp htrivia), if_pos heof, hfinish]
  · have hcolumn : state.column = column :=
      (column_reach (start mode) before).trans (advance_eq_columnAfter (chars before))
    obtain ⟨hplace, -, hcontexts⟩ := column_decideModule token.kind state
    have hopens := openPending_opens token.kind (decideModule token.kind state)
    rw [hplace, hcontexts, hcolumn] at hopens
    obtain ⟨lined, left, harrive, hfresh, hstale⟩ := exists_lined hrising token.kind
    rw [hcolumn] at hfresh
    refine ⟨(hrising.step token).indents, semi_not_mem_openPending _ _,
      hopens.imp_right (And.imp_right And.right), lined, left, ?_, ?_, ?_⟩
    · have hmarks : (step token state).1 =
          opening.1 ++ lined ++ List.replicate (closeBy token.kind left).1 .rightBrace := by
        rw [step_eq, harrive]
      rw [hrun, run_of_significant htrivia hkind, ← hmarks]
    · intro hstarts
      have hlined := hfresh ((fresh_reach mode before).mpr hstarts)
      refine ⟨hlined, hlined.le, fun hclosing indent hindent => hlined.le indent ?_⟩
      have harrived := indents_step hclosing state indent hindent
      rwa [harrive] at harrived
    · exact fun hstarts => hstale (Bool.eq_false_iff.mpr (mt (fresh_reach mode before).mp hstarts))

theorem insertMarks_indents_of_doLines :
    let state := reach (start .module) doLines
    let behind := (step (.covering .varId 16 "z") state).2
    let opening := openPending .varId (decideModule .varId state)
    (indents state.contexts).Pairwise (· > ·) ∧ (indents behind.contexts).Pairwise (· > ·) ∧
      .semi ∉ opening.1 ∧
      (opening.2.2 = false ∧ opening.2.1 = state.contexts ∨
        opening.2.2 = true ∧ ∃ ofLet, opening.2.1 = .block 7 ofLet :: state.contexts) ∧
      ∃ lined left,
        insertMarks .module (Token.ofText "x = do y\n       z") = marked (start .module) doLines ++
          (marksAt (.covering .varId 16 "z") (opening.1 ++ lined ++
            List.replicate (closeBy .varId left).1 .rightBrace) ++
              .covering .varId 16 "z" :: run behind [.eof 17]) ∧
        (StartsLine doLines → Lined 7 opening.2.1 opening.2.2 lined left ∧
          (∀ indent ∈ indents left, indent ≤ 7) ∧
          (TokenKind.varId.isClosingBracket = false →
            ∀ indent ∈ indents behind.contexts, indent ≤ 7)) ∧
        (¬StartsLine doLines → lined = [] ∧ left = opening.2.1) := by
  obtain ⟨hrises, -, hline⟩ := insertMarks_indents .module ofText_doLines rfl
  exact ⟨hrises, hline (by decide)⟩

/-- A bracket in a `do`, up to a line left of the block. -/
def hangingBracket : List Token :=
  [.covering .varId 0 "x", .covering .whitespace 1 " ", .covering .equals 2 "=",
    .covering .whitespace 3 " ", .covering .kwDo 4 "do", .covering .whitespace 6 "\n      ",
    .covering .varId 13 "foo", .covering .whitespace 16 " ", .covering .leftParen 17 "(",
    .covering .whitespace 18 "\n  "]

/-- A closing bracket on a line left of the block around its brackets does not end that block, and the
end of the text at the column of a block begins no item of it. -/
theorem indents_spared :
    (∃ before token after,
      Token.ofText "x = do\n      foo (\n  )\n      bar" = before ++ token :: after ∧
        token.kind = .rightParen ∧ StartsLine before ∧ columnAfter (chars before) = 2 ∧
        indents (step token (reach (start .module) before)).2.contexts = [6, 0]) ∧
      ∃ before stop, Token.ofText "x\n" = before ++ [.eof stop] ∧ StartsLine before ∧
        columnAfter (chars before) = 0 ∧
        indents (reach (start .module) before).contexts = [0] ∧
        .semi ∉ (insertMarks .module (Token.ofText "x\n")).map (·.kind) := by
  constructor
  · refine ⟨hangingBracket, .covering .rightParen 21 ")",
      [.covering .whitespace 22 "\n      ", .covering .varId 29 "bar", .eof 32], by decide +kernel,
      rfl, .inr ⟨hangingBracket.take 9, hangingBracket.drop 9, rfl, ?_, ?_⟩, ?_, ?_⟩ <;> decide
  · have hscan : Token.ofText "x\n" =
        [.covering .varId 0 "x"] ++ [.covering .whitespace 1 "\n"] ++ [.eof 2] := by
      decide +kernel
    refine ⟨_, _, hscan, .inr ⟨_, _, rfl, ?_, ?_⟩, ?_, ?_, by rw [hscan]; decide⟩ <;> decide

end Layout

end LosslessTree
