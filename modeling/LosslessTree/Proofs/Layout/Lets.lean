import LosslessTree.Proofs.Layout.Items

/-!
Expressions of `let` within `let`, printed over lines and columns, and the marks they get. An `in`
closes by its kind whatever `let` is innermost, also where the indentation of its line or a brace
has closed its own block already. The marks are right exactly where no such `in` stands in a
binding of a block.
-/

namespace LosslessTree

namespace Layout

/-! ## Tokens in their places -/

/-- A token with the column where it begins. It is fresh where no other token stands in front of it
on its line. -/
structure Place where
  token : Token
  column : Nat
  fresh : Bool
  deriving DecidableEq

def places (column : Nat) (fresh : Bool) : List Token → List Place
  | [] => []
  | token :: rest =>
    if token.isTrivia then
      places (advance column token.text.toList) (fresh || token.text.toList.contains '\n') rest
    else ⟨token, column, fresh⟩ :: places (advance column token.text.toList) false rest

def marksBefore (marks : List TokenKind) : List Token → List (Token × List TokenKind)
  | [] => []
  | token :: rest =>
    if token.isTrivia then marksBefore marks rest
    else if token.isVirtual then marksBefore (marks ++ [token.kind]) rest
    else (token, marks) :: marksBefore [] rest

/-- The marks that tokens get in their places, once it is settled whether the module is a block. -/
def lay (contexts : List Context) (pending : Option Bool) : List Place → List (Token × List TokenKind)
  | [] => []
  | place :: rest =>
    let state := ⟨contexts, pending, false, place.column, place.fresh⟩
    if place.token.kind = .eof then [(place.token, finish state)]
    else
      let (marks, state) := step place.token state
      (place.token, marks) :: lay state.contexts state.pending rest

theorem marksBefore_marksAt (token : Token) {marks : List TokenKind}
    (hmarks : ∀ mark ∈ marks, IsMark mark) (front : List TokenKind) (rest : List Token) :
    marksBefore front (marksAt token marks ++ rest) = marksBefore (front ++ marks) rest := by
  induction marks generalizing front with
  | nil => simp [marksAt]
  | cons mark marks ih =>
      obtain ⟨hmark, hrest⟩ := List.forall_mem_cons.mp hmarks
      have htrivia : (Token.zeroWidth mark token.span.start).isTrivia = false := hmark.not_trivia
      have hvirtual := Token.isVirtual_zeroWidth hmark.ne_eof token.span.start
      have hstep : marksBefore front (marksAt token (mark :: marks) ++ rest) =
          marksBefore (front ++ [mark]) (marksAt token marks ++ rest) := by
        change marksBefore front (Token.zeroWidth mark _ :: (marksAt token marks ++ rest)) = _
        rw [marksBefore, if_neg (by simp [htrivia]), if_pos hvirtual]
        rfl
      rw [hstep, ih hrest, List.append_assoc, List.singleton_append]

theorem step_of_settled {state : State} (hsettled : state.undecided = false) {token : Token}
    (htrivia : token.isTrivia = false) :
    (step token state).2.undecided = false ∧
      (step token state).2.column = advance state.column token.text.toList ∧
      (step token state).2.fresh = false := by
  rw [step_eq]
  simp [leave, pass, decideModule, hsettled, htrivia]

theorem marksBefore_run {state : State} (hsettled : state.undecided = false) {tokens : List Token}
    (hwide : ∀ token ∈ tokens, token.isVirtual = false) :
    marksBefore [] (run state tokens) =
      lay state.contexts state.pending (places state.column state.fresh tokens) := by
  induction tokens generalizing state with
  | nil => rfl
  | cons token rest ih =>
      obtain ⟨hvirtual, hrest⟩ := List.forall_mem_cons.mp hwide
      cases htrivia : token.isTrivia with
      | true =>
          have hpass : (pass token state).undecided = false := hsettled
          rw [run_of_trivia htrivia, marksBefore, if_pos htrivia, ih hpass hrest, places,
            if_pos htrivia]
          simp [pass, htrivia]
      | false =>
          have htoken (marks : List TokenKind) (more : List Token) :
              marksBefore marks (token :: more) = (token, marks) :: marksBefore [] more := by
            rw [marksBefore, if_neg (by simp [htrivia]), if_neg (by simp [hvirtual])]
          have hstate : state = ⟨state.contexts, state.pending, false, state.column, state.fresh⟩ := by
            rw [← hsettled]
          rw [places, if_neg (by simp [htrivia]), lay]
          dsimp only
          rw [← hstate]
          split
          · next hkind =>
              rw [run, if_neg (by simp [htrivia]), if_pos hkind,
                marksBefore_marksAt token (finish_marks state), htoken]
              rfl
          · next hkind =>
              obtain ⟨hnext, hcolumn, hfresh⟩ := step_of_settled hsettled htrivia
              rw [run_of_significant htrivia hkind, marksBefore_marksAt token (step_marks token state),
                htoken, List.nil_append, ih hnext hrest, hcolumn, hfresh]

/-! ## Expressions -/

mutual

/-- A name, or bindings with an expression behind them. The bindings make a block by their column
or stand in braces. -/
inductive Expr where
  | name (place : Place)
  | letIn (keyword : Place) (bindings : Bindings) (closing : Place) (body : Expr)
  | letBraces (keyword left : Place) (bindings : Bindings) (right closing : Place) (body : Expr)

inductive Bindings where
  | last (name equals : Place) (value : Expr)
  | more (name equals : Place) (value : Expr) (separator : Option Place) (rest : Bindings)

end

def Bindings.first : Bindings → Place
  | .last name _ _ | .more name _ _ _ _ => name

mutual

def Expr.places : Expr → List Place
  | .name place => [place]
  | .letIn keyword bindings closing body => keyword :: (bindings.places ++ closing :: body.places)
  | .letBraces keyword left bindings right closing body =>
    keyword :: left :: (bindings.places ++ right :: closing :: body.places)

def Bindings.places : Bindings → List Place
  | .last name equals value => name :: equals :: value.places
  | .more name equals value separator rest =>
    name :: equals :: (value.places ++ (separator.toList ++ rest.places))

end

mutual

/-- The tokens with the marks they are to get: a block begins with its first binding, goes on with
each further one and ends with its own `in`. -/
def Expr.laidOut : Expr → List (Token × List TokenKind)
  | .name place => [(place.token, [])]
  | .letIn keyword bindings closing body =>
    (keyword.token, []) ::
      (bindings.laidOut [.leftBrace] [.semi] ++ (closing.token, [.rightBrace]) :: body.laidOut)
  | .letBraces keyword left bindings right closing body =>
    (keyword.token, []) :: (left.token, []) ::
      (bindings.laidOut [] [] ++ (right.token, []) :: (closing.token, []) :: body.laidOut)

def Bindings.laidOut (opening item : List TokenKind) : Bindings → List (Token × List TokenKind)
  | .last name equals value => (name.token, opening) :: (equals.token, []) :: value.laidOut
  | .more name equals value separator rest =>
    (name.token, opening) :: (equals.token, []) ::
      (value.laidOut ++ (separator.toList.map (·.token, []) ++ rest.laidOut item item))

end

/-! ## Lines and columns -/

namespace Place

/-- Further right than the bindings around it, if these make a block. -/
def Within (place : Place) (block : Option Nat) : Prop := ∀ column ∈ block, column < place.column

/-- A token inside a binding may begin a line, but not a binding. -/
def Continues (place : Place) (kind : TokenKind) (block : Option Nat) : Prop :=
  place.token.kind = kind ∧ (place.fresh = true → place.Within block)

/-- An `in` stands on the line where its bindings end, or below its `let`. -/
def Closes (place keyword : Place) (block : Option Nat) : Prop :=
  place.token.kind = .kwIn ∧
    (place.fresh = true → place.column = keyword.column ∧ place.Within block)

/-- A further binding begins a line at the column of the block, or stands behind a semicolon. -/
def Follows (place : Place) (separator : Option Place) : Option Nat → Prop
  | some column => separator = none ∧ place.fresh = true ∧ place.column = column
  | none => separator.map (·.token.kind) = some .semi

instance (place : Place) (block : Option Nat) : Decidable (place.Within block) :=
  inferInstanceAs (Decidable (∀ column ∈ block, _))

instance (place : Place) (kind : TokenKind) (block : Option Nat) :
    Decidable (place.Continues kind block) :=
  inferInstanceAs (Decidable (_ ∧ _))

instance (place keyword : Place) (block : Option Nat) : Decidable (place.Closes keyword block) :=
  inferInstanceAs (Decidable (_ ∧ _))

instance (place : Place) (separator : Option Place) :
    (block : Option Nat) → Decidable (place.Follows separator block)
  | some _ => inferInstanceAs (Decidable (_ ∧ _))
  | none => inferInstanceAs (Decidable (_ = _))

end Place

mutual

/-- An expression is printed line by line inside bindings that make a block, or in braces. -/
def Expr.Printed (block : Option Nat) : Expr → Prop
  | .name place => place.Continues .varId block
  | .letIn keyword bindings closing body =>
    keyword.Continues .kwLet block ∧ bindings.first.Within block ∧
      keyword.column < bindings.first.column ∧ bindings.Printed (some bindings.first.column) ∧
      closing.Closes keyword block ∧ body.Printed block
  | .letBraces keyword left bindings right closing body =>
    keyword.Continues .kwLet block ∧ left.Continues .leftBrace block ∧ bindings.Printed none ∧
      right.token.kind = .rightBrace ∧ closing.Closes keyword block ∧ body.Printed block

def Bindings.Printed (block : Option Nat) : Bindings → Prop
  | .last name equals value =>
    name.token.kind = .varId ∧ equals.Continues .equals block ∧ value.Printed block
  | .more name equals value separator rest =>
    name.token.kind = .varId ∧ equals.Continues .equals block ∧ value.Printed block ∧
      rest.first.Follows separator block ∧ rest.Printed block

end

mutual

instance Expr.decidablePrinted (block : Option Nat) :
    (expr : Expr) → Decidable (expr.Printed block)
  | .name place => inferInstanceAs (Decidable (place.Continues .varId block))
  | .letIn _ bindings _ body =>
    have := bindings.decidablePrinted (some bindings.first.column)
    have := body.decidablePrinted block
    inferInstanceAs (Decidable (_ ∧ _))
  | .letBraces _ _ bindings _ _ body =>
    have := bindings.decidablePrinted none
    have := body.decidablePrinted block
    inferInstanceAs (Decidable (_ ∧ _))

instance Bindings.decidablePrinted (block : Option Nat) :
    (bindings : Bindings) → Decidable (bindings.Printed block)
  | .last _ _ value =>
    have := value.decidablePrinted block
    inferInstanceAs (Decidable (_ ∧ _))
  | .more _ _ value _ rest =>
    have := value.decidablePrinted block
    have := rest.decidablePrinted block
    inferInstanceAs (Decidable (_ ∧ _))

end

mutual

/-- Where the innermost bindings around an expression are a block of a `let`, each `let` of it is
such a block as well, and its `in` stands on the line where its bindings end. -/
def Expr.Inline (inBlock : Bool) : Expr → Prop
  | .name _ => True
  | .letIn _ bindings closing body =>
    (inBlock = true → closing.fresh = false) ∧ bindings.Inline true ∧ body.Inline inBlock
  | .letBraces _ _ bindings _ _ body =>
    inBlock = false ∧ bindings.Inline false ∧ body.Inline inBlock

def Bindings.Inline (inBlock : Bool) : Bindings → Prop
  | .last _ _ value => value.Inline inBlock
  | .more _ _ value _ rest => value.Inline inBlock ∧ rest.Inline inBlock

end

/-! ## One token -/

def blockColumn : List Context → Option Nat
  | .block column _ :: _ => some column
  | _ => none

theorem isDeeper_iff (place : Place) (contexts : List Context) :
    isDeeper place.column contexts = true ↔ place.Within (blockColumn contexts) := by
  unfold isDeeper blockColumn Place.Within
  split <;> simp

theorem closeDeeper_of_isDeeper {column : Nat} {contexts : List Context}
    (hdeeper : isDeeper column contexts = true) :
    closeDeeper column contexts = (0, contexts) ∧ isAt column contexts = false := by
  cases contexts with
  | nil => exact ⟨rfl, rfl⟩
  | cons context below =>
      cases context with
      | bracket => exact ⟨rfl, rfl⟩
      | block indent ofLet =>
          have hlt : indent < column := by simpa [isDeeper] using hdeeper
          simp [closeDeeper, isAt, Nat.not_lt_of_gt hlt, Nat.ne_of_gt hlt]

theorem lay_cons {place : Place} {kind : TokenKind} (htoken : place.token.kind = kind)
    (hkind : kind ≠ .eof) {contexts middle left : List Context} {pending : Option Bool}
    {marks : List TokenKind} {closed : Nat}
    (harrive : arrive kind ⟨contexts, pending, false, place.column, place.fresh⟩ = (marks, middle))
    (hclose : closeBy kind middle = (closed, left)) (rest : List Place) :
    lay contexts pending (place :: rest) =
      (place.token, marks ++ List.replicate closed .rightBrace) ::
        lay (if kind.isOpeningBracket then .bracket :: left else left)
          (if kind.opensBlock then some (kind == .kwLet) else none) rest := by
  subst htoken
  rw [lay, if_neg hkind, step_eq, harrive]
  dsimp only
  rw [hclose]
  rfl

theorem arrive_of_continues {place : Place} {kind : TokenKind} {contexts : List Context}
    {pending : Option Bool} (hcontinues : place.Continues kind (blockColumn contexts))
    (hpending : pending = none ∨ kind = .leftBrace) :
    arrive kind ⟨contexts, pending, false, place.column, place.fresh⟩ = ([], contexts) := by
  have hopening : openPending kind ⟨contexts, pending, false, place.column, place.fresh⟩ =
      ([], contexts, false) := by
    unfold openPending
    rcases hpending with rfl | rfl
    · rfl
    · cases pending <;> rfl
  unfold arrive
  rw [decideModule, if_neg (by simp), hopening]
  dsimp only
  split
  · next hline =>
      have hwithin := hcontinues.2 (by simpa using hline)
      obtain ⟨hclosed, hat⟩ := closeDeeper_of_isDeeper ((isDeeper_iff place contexts).mpr hwithin)
      simp [beginLine, hclosed, hat]
  · rfl

section

variable {place : Place} {contexts : List Context}

theorem Place.within_none (place : Place) : place.Within none := by
  simp [Within]

theorem Place.continues_of_none {kind : TokenKind} (hkind : place.token.kind = kind) :
    place.Continues kind none :=
  ⟨hkind, fun _ => within_none place⟩

theorem lay_plain {kind : TokenKind} (hkind : kind = .varId ∨ kind = .equals ∨ kind = .semi)
    (hplace : place.Continues kind (blockColumn contexts)) (rest : List Place) :
    lay contexts none (place :: rest) = (place.token, []) :: lay contexts none rest := by
  have harrive := arrive_of_continues hplace (.inl rfl)
  rcases hkind with rfl | rfl | rfl
  all_goals exact lay_cons hplace.1 (by decide) harrive rfl rest

theorem lay_let (hplace : place.Continues .kwLet (blockColumn contexts)) (rest : List Place) :
    lay contexts none (place :: rest) = (place.token, []) :: lay contexts (some true) rest :=
  lay_cons hplace.1 (by decide) (arrive_of_continues hplace (.inl rfl)) rfl rest

theorem lay_leftBrace (hplace : place.Continues .leftBrace (blockColumn contexts))
    (rest : List Place) :
    lay contexts (some true) (place :: rest) =
      (place.token, []) :: lay (.bracket :: contexts) none rest :=
  lay_cons hplace.1 (by decide) (arrive_of_continues hplace (.inr rfl)) rfl rest

theorem lay_rightBrace (hkind : place.token.kind = .rightBrace) (rest : List Place) :
    lay (.bracket :: contexts) none (place :: rest) = (place.token, []) :: lay contexts none rest :=
  have hplace : place.Continues .rightBrace (blockColumn (.bracket :: contexts)) :=
    Place.continues_of_none hkind
  lay_cons hkind (by decide) (arrive_of_continues hplace (.inl rfl)) rfl rest

/-- The first binding opens a block at its column. -/
theorem lay_opening (hkind : place.token.kind = .varId) (ofLet : Bool)
    (hwithin : place.Within (blockColumn contexts)) (rest : List Place) :
    lay contexts (some ofLet) (place :: rest) =
      (place.token, [.leftBrace]) :: lay (.block place.column ofLet :: contexts) none rest := by
  have harrive : arrive .varId ⟨contexts, some ofLet, false, place.column, place.fresh⟩ =
      ([.leftBrace], .block place.column ofLet :: contexts) := by
    simp [arrive, decideModule, openPending, (isDeeper_iff place contexts).mpr hwithin]
  exact lay_cons hkind (by decide) harrive rfl rest

/-- A line at the column of a block begins an item of it. -/
theorem lay_item (hkind : place.token.kind = .varId) (ofLet : Bool) (hfresh : place.fresh = true)
    (rest : List Place) :
    lay (.block place.column ofLet :: contexts) none (place :: rest) =
      (place.token, [.semi]) :: lay (.block place.column ofLet :: contexts) none rest := by
  have harrive : arrive .varId
      ⟨.block place.column ofLet :: contexts, none, false, place.column, place.fresh⟩ =
        ([.semi], .block place.column ofLet :: contexts) := by
    simp [arrive, decideModule, openPending, hfresh, beginLine, closeDeeper, isAt]
  exact lay_cons hkind (by decide) harrive rfl rest

/-! ## The end of a `let` -/

theorem closeLet?_pos {closed : Nat} {left : List Context}
    (hclose : closeLet? contexts = some (closed, left)) : 0 < closed := by
  cases contexts with
  | nil => cases hclose
  | cons context below =>
      cases context with
      | bracket => cases hclose
      | block column ofLet =>
          unfold closeLet? at hclose
          split at hclose
          · cases hclose
            exact Nat.one_pos
          · obtain ⟨⟨inner, rest⟩, -, heq⟩ := Option.map_eq_some_iff.mp hclose
            cases heq
            exact Nat.succ_pos inner

/-- An `in` whose own block is not open any more makes no mark of its own if there is no other
block of a `let` that it could close. -/
theorem lay_in_iff (hkind : place.token.kind = .kwIn) {before : List Context}
    {marks : List TokenKind}
    (harrive : arrive .kwIn ⟨before, none, false, place.column, place.fresh⟩ = (marks, contexts))
    (rest : List Place) (more : List (Token × List TokenKind)) :
    lay before none (place :: rest) = (place.token, marks) :: more ↔
      (closeLet? contexts).isSome = false ∧ lay contexts none rest = more := by
  cases hclose : closeLet? contexts with
  | none =>
      have hcloseBy : closeBy .kwIn contexts = (0, contexts) := by simp [closeBy, hclose]
      rw [lay_cons hkind (by decide) harrive hcloseBy]
      simp [TokenKind.isOpeningBracket, TokenKind.opensBlock]
  | some result =>
      obtain ⟨closed, left⟩ := result
      have hcloseBy : closeBy .kwIn contexts = (closed, left) := by simp [closeBy, hclose]
      have hpos := closeLet?_pos hclose
      rw [lay_cons hkind (by decide) harrive hcloseBy]
      simp [Nat.ne_of_gt hpos]

/-- The `in` below its `let` finds the block closed by its line, as any `in` behind braces does. -/
theorem lay_in_block_iff {keyword : Place} {column : Nat}
    (hplace : place.Closes keyword (blockColumn contexts)) (hcolumn : keyword.column < column)
    (rest : List Place) (more : List (Token × List TokenKind)) :
    lay (.block column true :: contexts) none (place :: rest) =
        (place.token, [.rightBrace]) :: more ↔
      ((closeLet? contexts).isSome = true → place.fresh = false) ∧
        lay contexts none rest = more := by
  cases hfresh : place.fresh with
  | false =>
      have harrive : arrive .kwIn
          ⟨.block column true :: contexts, none, false, place.column, place.fresh⟩ =
            ([], .block column true :: contexts) := by
        simp [arrive, decideModule, openPending, hfresh]
      have hclose : closeBy .kwIn (.block column true :: contexts) = (1, contexts) := rfl
      rw [lay_cons hplace.1 (by decide) harrive hclose]
      simp [TokenKind.isOpeningBracket, TokenKind.opensBlock]
  | true =>
      obtain ⟨hbelow, hwithin⟩ := hplace.2 hfresh
      obtain ⟨hclosed, hat⟩ := closeDeeper_of_isDeeper ((isDeeper_iff place contexts).mpr hwithin)
      have hlt : place.column < column := hbelow ▸ hcolumn
      have harrive : arrive .kwIn
          ⟨.block column true :: contexts, none, false, place.column, place.fresh⟩ =
            ([.rightBrace], contexts) := by
        simp [arrive, decideModule, openPending, hfresh, beginLine, closeDeeper, hlt, hclosed, hat]
      rw [lay_in_iff hplace.1 harrive]
      simp

theorem lay_in_braces_iff {keyword : Place} (hplace : place.Closes keyword (blockColumn contexts))
    (rest : List Place) (more : List (Token × List TokenKind)) :
    lay contexts none (place :: rest) = (place.token, []) :: more ↔
      (closeLet? contexts).isSome = false ∧ lay contexts none rest = more :=
  lay_in_iff hplace.1 (arrive_of_continues
    ⟨hplace.1, fun hfresh => (hplace.2 hfresh).2⟩ (.inl rfl)) rest more

end

/-! ## Whole expressions -/

def itemMarks (block : Option Nat) : List TokenKind := if block.isSome then [.semi] else []

theorem lay_follows {place : Place} {separator : Option Place} {contexts : List Context}
    (hkind : place.token.kind = .varId) (hfollows : place.Follows separator (blockColumn contexts)) :
    (∀ rest, lay contexts none (separator.toList ++ rest) =
      separator.toList.map (·.token, []) ++ lay contexts none rest) ∧
    ∀ rest, lay contexts none (place :: rest) =
      (place.token, itemMarks (blockColumn contexts)) :: lay contexts none rest := by
  cases hblock : blockColumn contexts with
  | some column =>
      rw [hblock] at hfollows
      obtain ⟨rfl, hfresh, rfl⟩ := hfollows
      obtain ⟨ofLet, below, rfl⟩ : ∃ ofLet below, contexts = .block place.column ofLet :: below := by
        unfold blockColumn at hblock
        split at hblock
        · next ofLet below => exact ⟨ofLet, below, by rw [Option.some.inj hblock]⟩
        · cases hblock
      exact ⟨fun _ => rfl, lay_item hkind ofLet hfresh⟩
  | none =>
      rw [hblock] at hfollows
      obtain ⟨semi, rfl, hsemi⟩ := Option.map_eq_some_iff.mp hfollows
      exact ⟨lay_plain (.inr (.inr rfl)) (hblock ▸ Place.continues_of_none hsemi),
        lay_plain (.inl rfl) (hblock ▸ Place.continues_of_none hkind)⟩

theorem Bindings.kind_first {block : Option Nat} : (bindings : Bindings) →
    bindings.Printed block → bindings.first.token.kind = .varId
  | .last _ _ _, hprinted | .more _ _ _ _ _, hprinted => hprinted.1

mutual

theorem Expr.lay_iff (expr : Expr) {contexts : List Context}
    (hprinted : expr.Printed (blockColumn contexts)) (rest : List Place)
    (more : List (Token × List TokenKind)) :
    lay contexts none (expr.places ++ rest) = expr.laidOut ++ more ↔
      expr.Inline (closeLet? contexts).isSome ∧ lay contexts none rest = more := by
  cases expr with
  | name place =>
      change lay contexts none (place :: rest) = (place.token, []) :: more ↔ _
      rw [lay_plain (.inl rfl) hprinted]
      simp [Expr.Inline]
  | letIn keyword bindings closing body =>
      obtain ⟨hkeyword, hfirst, hcolumn, hbindings, hclosing, hbody⟩ := hprinted
      have hopening := lay_opening (bindings.kind_first hbindings) true hfirst
      have hblock := bindings.lay_iff (.block bindings.first.column true :: contexts) hbindings
        hopening (closing :: (body.places ++ rest))
        ((closing.token, [.rightBrace]) :: (body.laidOut ++ more))
      rw [lay_in_block_iff hclosing hcolumn, body.lay_iff hbody] at hblock
      simp only [Expr.places, Expr.laidOut, List.cons_append, List.append_assoc, lay_let hkeyword,
        List.cons.injEq, true_and]
      refine hblock.trans ?_
      simp only [Expr.Inline, closeLet?]
      tauto
  | letBraces keyword left bindings right closing body =>
      obtain ⟨hkeyword, hleft, hbindings, hright, hclosing, hbody⟩ := hprinted
      have hfirst : bindings.first.Continues .varId (blockColumn (.bracket :: contexts)) :=
        Place.continues_of_none (bindings.kind_first hbindings)
      have hbraces := bindings.lay_iff (.bracket :: contexts) hbindings
        (lay_plain (.inl rfl) hfirst) (right :: closing :: (body.places ++ rest))
        ((right.token, []) :: (closing.token, []) :: (body.laidOut ++ more))
      rw [lay_rightBrace hright, List.cons.injEq, lay_in_braces_iff hclosing,
        body.lay_iff hbody] at hbraces
      simp only [Expr.places, Expr.laidOut, List.cons_append, List.append_assoc, lay_let hkeyword,
        lay_leftBrace hleft, List.cons.injEq, true_and]
      refine hbraces.trans ?_
      simp only [Expr.Inline, closeLet?]
      tauto

theorem Bindings.lay_iff (bindings : Bindings) {contexts : List Context} (inner : List Context)
    {pending : Option Bool} {opening : List TokenKind}
    (hprinted : bindings.Printed (blockColumn inner))
    (hopening : ∀ rest, lay contexts pending (bindings.first :: rest) =
      (bindings.first.token, opening) :: lay inner none rest)
    (rest : List Place) (more : List (Token × List TokenKind)) :
    lay contexts pending (bindings.places ++ rest) =
        bindings.laidOut opening (itemMarks (blockColumn inner)) ++ more ↔
      bindings.Inline (closeLet? inner).isSome ∧ lay inner none rest = more := by
  cases bindings with
  | last name equals value =>
      obtain ⟨-, hequals, hvalue⟩ := hprinted
      change lay contexts pending (name :: equals :: (value.places ++ rest)) =
        (name.token, opening) :: (equals.token, []) :: (value.laidOut ++ more) ↔ _
      have hname : ∀ rest, lay contexts pending (name :: rest) = (name.token, opening) :: _ := hopening
      rw [hname, lay_plain (.inr (.inl rfl)) hequals]
      simp only [List.cons.injEq, true_and]
      exact value.lay_iff hvalue rest more
  | more name equals value separator others =>
      obtain ⟨-, hequals, hvalue, hfollows, hothers⟩ := hprinted
      have hname : ∀ rest, lay contexts pending (name :: rest) = (name.token, opening) :: _ := hopening
      simp only [Bindings.places, Bindings.laidOut, List.cons_append, List.append_assoc]
      rw [hname, lay_plain (.inr (.inl rfl)) hequals]
      simp only [List.cons.injEq, true_and]
      obtain ⟨hseparator, hfirst⟩ := lay_follows (others.kind_first hothers) hfollows
      rw [value.lay_iff hvalue, hseparator, List.append_cancel_left_eq,
        others.lay_iff inner hothers hfirst, Bindings.Inline, and_assoc]

end

/-! ## Modules -/

theorem run_undecided {column : Nat} {fresh : Bool} {tokens : List Token}
    (hfirst : ∀ place ∈ (places column fresh tokens).head?,
      place.token.kind ≠ .kwModule ∧ place.token.kind ≠ .pragma) :
    run ⟨[], none, true, column, fresh⟩ tokens = run ⟨[], some false, false, column, fresh⟩ tokens := by
  induction tokens generalizing column fresh with
  | nil => rfl
  | cons token rest ih =>
      rw [places] at hfirst
      cases htrivia : token.isTrivia with
      | true =>
          rw [htrivia] at hfirst
          have hpass (contexts : List Context) (pending : Option Bool) (undecided : Bool) :
              pass token ⟨contexts, pending, undecided, column, fresh⟩ =
                ⟨contexts, pending, undecided, advance column token.text.toList,
                  fresh || token.text.toList.contains '\n'⟩ := by
            simp [pass, htrivia]
          rw [run_of_trivia htrivia, run_of_trivia htrivia, hpass, hpass, ih hfirst]
      | false =>
          rw [htrivia] at hfirst
          obtain ⟨hmodule, hpragma⟩ := hfirst _ rfl
          have hstep : step token ⟨[], none, true, column, fresh⟩ =
              step token ⟨[], some false, false, column, fresh⟩ := by
            simp [step, decideModule, hmodule, hpragma]
          by_cases hkind : token.kind = .eof
          · simp [run, htrivia, hkind, finish]
          · rw [run_of_significant htrivia hkind, run_of_significant htrivia hkind, hstep]

theorem Bindings.head?_places : (bindings : Bindings) → (rest : List Place) →
    (bindings.places ++ rest).head? = some bindings.first
  | .last _ _ _, _ | .more _ _ _ _ _, _ => rfl

/-- In a module of bindings that are printed over lines and columns, each block of a `let` begins
with its first binding, goes on with each further one and ends with its own `in`, and no token gets
any other mark, exactly if below the bindings of a block no `let` has braces or its `in` on a line
of its own. -/
theorem marksBefore_insertMarks {text : String} {bindings : Bindings} {stop : Place}
    (hplaces : places 0 true (Token.ofText text) = bindings.places ++ [stop])
    (hprinted : bindings.Printed (some bindings.first.column)) (hstop : stop.token.kind = .eof) :
    marksBefore [] (insertMarks .module (Token.ofText text)) =
        bindings.laidOut [.leftBrace] [.semi] ++ [(stop.token, [.rightBrace])] ↔
      bindings.Inline false := by
  have hwide : ∀ token ∈ Token.ofText text, token.isVirtual = false := by
    intro token htoken
    by_cases hkind : token.kind = .eof
    · simp [Token.isVirtual, hkind]
    · exact Token.scan_wide htoken hkind
  have hkind := bindings.kind_first hprinted
  have hrun : insertMarks .module (Token.ofText text) =
      run ⟨[], some false, false, 0, true⟩ (Token.ofText text) := by
    refine run_undecided fun place hplace => ?_
    rw [hplaces, bindings.head?_places] at hplace
    rw [← Option.some.inj hplace, hkind]
    exact ⟨by decide, by decide⟩
  have hfinish : lay [.block bindings.first.column false] none [stop] =
      [(stop.token, [.rightBrace])] := by
    rw [lay, if_pos hstop]
    rfl
  have hopening : ∀ rest, lay [] (some false) (bindings.first :: rest) = _ :=
    lay_opening hkind false (Place.within_none _)
  have hiff := bindings.lay_iff [.block bindings.first.column false] hprinted hopening [stop]
    [(stop.token, [.rightBrace])]
  rw [hrun, marksBefore_run rfl hwide, hplaces]
  exact hiff.trans (and_iff_left hfinish)

/-- `x = let y = let z = w` on one line, and what stands behind it. -/
def twoLets (inner innerBody outer outerBody : Place) : Bindings :=
  .last ⟨.covering .varId 0 "x", 0, true⟩ ⟨.covering .equals 2 "=", 2, false⟩
    (.letIn ⟨.covering .kwLet 4 "let", 4, false⟩
      (.last ⟨.covering .varId 8 "y", 8, false⟩ ⟨.covering .equals 10 "=", 10, false⟩
        (.letIn ⟨.covering .kwLet 12 "let", 12, false⟩
          (.last ⟨.covering .varId 16 "z", 16, false⟩ ⟨.covering .equals 18 "=", 18, false⟩
            (.name ⟨.covering .varId 20 "w", 20, false⟩))
          inner (.name innerBody)))
      outer (.name outerBody))

theorem marksBefore_insertMarks_of_nested :
    marksBefore [] (insertMarks .module (Token.ofText "x = let y = let z = w in z\n    in y")) =
      (twoLets ⟨.covering .kwIn 22 "in", 22, false⟩ ⟨.covering .varId 25 "z", 25, false⟩
          ⟨.covering .kwIn 31 "in", 4, true⟩ ⟨.covering .varId 34 "y", 7, false⟩).laidOut
        [.leftBrace] [.semi] ++ [(.eof 35, [.rightBrace])] := by
  have hplaces : places 0 true (Token.ofText "x = let y = let z = w in z\n    in y") =
      (twoLets ⟨.covering .kwIn 22 "in", 22, false⟩ ⟨.covering .varId 25 "z", 25, false⟩
          ⟨.covering .kwIn 31 "in", 4, true⟩ ⟨.covering .varId 34 "y", 7, false⟩).places ++
        [⟨.eof 35, 8, false⟩] := by
    decide +kernel
  exact (marksBefore_insertMarks hplaces (by decide +kernel) rfl).mpr
    ⟨by decide, ⟨fun _ => rfl, trivial, trivial⟩, trivial⟩

/-- An `in` below its `let`, in a binding of another one which it closes too. -/
theorem exists_marksBefore_ne : ∃ (text : String) (bindings : Bindings) (stop : Place),
    places 0 true (Token.ofText text) = bindings.places ++ [stop] ∧
    bindings.Printed (some bindings.first.column) ∧ stop.token.kind = .eof ∧
    marksBefore [] (insertMarks .module (Token.ofText text)) ≠
      bindings.laidOut [.leftBrace] [.semi] ++ [(stop.token, [.rightBrace])] :=
  ⟨"x = let y = let z = w\n            in z\n    in y",
    twoLets ⟨.covering .kwIn 34 "in", 12, true⟩ ⟨.covering .varId 37 "z", 15, false⟩
      ⟨.covering .kwIn 43 "in", 4, true⟩ ⟨.covering .varId 46 "y", 7, false⟩,
    ⟨.eof 47, 8, false⟩, by decide +kernel, by decide +kernel, rfl, by decide +kernel⟩

end Layout

end LosslessTree
