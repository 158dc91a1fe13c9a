import LosslessTree.Proofs.Token.Same
import LosslessTree.Proofs.Token.Tiling

/-!
Passing over tokens, and the items of blocks. The marks of the tokens in front and the state behind
them are all that the tokens further on can tell. A closing bracket on a line of its own, put in
front of an item of the only block that is open, leaves the state of the block as it was.
-/

namespace LosslessTree

namespace Layout

/-! ## Passing over tokens -/

def reach (state : State) : List Token → State
  | [] => state
  | token :: rest =>
    reach (if token.isTrivia then pass token state else (step token state).2) rest

def marked (state : State) : List Token → List Token
  | [] => []
  | token :: rest =>
    if token.isTrivia then token :: marked (pass token state) rest
    else marksAt token (step token state).1 ++ token :: marked (step token state).2 rest

theorem run_append (state : State) {before : List Token}
    (hends : ∀ token ∈ before, token.kind ≠ .eof) (rest : List Token) :
    run state (before ++ rest) = marked state before ++ run (reach state before) rest := by
  induction before generalizing state with
  | nil => rfl
  | cons token before ih =>
      obtain ⟨hkind, hbefore⟩ := List.forall_mem_cons.mp hends
      rw [List.cons_append]
      cases htrivia : token.isTrivia with
      | true =>
          rw [run_of_trivia htrivia, ih _ hbefore]
          simp [marked, reach, htrivia]
      | false =>
          rw [run_of_significant htrivia hkind, ih _ hbefore]
          simp [marked, reach, htrivia]

theorem reach_append (state : State) (before rest : List Token) :
    reach state (before ++ rest) = reach (reach state before) rest := by
  induction before generalizing state with
  | nil => rfl
  | cons token before ih => exact ih _

/-! ## One token -/

/-- The marks of a token by its place alone, and what is open behind them: a pending block opens,
and a new line closes blocks and begins an item. -/
def arrive (kind : TokenKind) (state : State) : List TokenKind × List Context :=
  let (opened, contexts, justOpened) := openPending kind (decideModule kind state)
  let (lined, contexts) :=
    if !justOpened && state.fresh then beginLine state.column contexts else ([], contexts)
  (opened ++ lined, contexts)

def leave (token : Token) (contexts : List Context) (state : State) : State :=
  pass token { decideModule token.kind state with
    contexts := if token.kind.isOpeningBracket then .bracket :: contexts else contexts
    pending := if token.kind.opensBlock then some (token.kind == .kwLet) else none }

theorem column_decideModule (kind : TokenKind) (state : State) :
    (decideModule kind state).column = state.column ∧
      (decideModule kind state).fresh = state.fresh ∧
      (decideModule kind state).contexts = state.contexts := by
  unfold decideModule
  split <;> exact ⟨rfl, rfl, rfl⟩

theorem step_eq (token : Token) (state : State) :
    step token state =
      ((arrive token.kind state).1 ++
          List.replicate (closeBy token.kind (arrive token.kind state).2).1 .rightBrace,
        leave token (closeBy token.kind (arrive token.kind state).2).2 state) := by
  obtain ⟨hcolumn, hfresh, -⟩ := column_decideModule token.kind state
  unfold step arrive leave
  dsimp only
  rw [hcolumn, hfresh]

/-! ## Modules that are not settled -/

/-- As long as it is not settled whether the module is a block, nothing is open or to open. -/
def State.Early (state : State) : Prop :=
  state.undecided = true → state.contexts = [] ∧ state.pending = none

theorem State.early_start : ∀ mode : Mode, (start mode).Early
  | .module => fun _ => ⟨rfl, rfl⟩
  | .block | .none => fun hundecided => nomatch hundecided

theorem State.Early.step {state : State} (hearly : state.Early) (token : Token) :
    (step token state).2.Early := by
  intro hundecided
  change (decideModule token.kind state).undecided = true at hundecided
  have hpragma : token.kind = .pragma ∧ state.undecided = true := by
    unfold decideModule at hundecided
    split at hundecided
    · cases hundecided
    · next hkind =>
        simp only [hundecided, Bool.true_and, bne_iff_ne, ne_eq, Decidable.not_not] at hkind
        exact ⟨hkind, hundecided⟩
  obtain ⟨hkind, hbefore⟩ := hpragma
  obtain ⟨hcontexts, hpending⟩ := hearly hbefore
  have hopening : openPending token.kind (decideModule token.kind state) = ([], [], false) := by
    simp [decideModule, openPending, hkind, hcontexts, hpending]
  have harrive : (arrive token.kind state).2 = [] := by
    unfold arrive
    rw [hopening]
    dsimp only
    split <;> rfl
  rw [step_eq, harrive, hkind]
  simp [leave, pass, closeBy, hkind, TokenKind.isOpeningBracket, TokenKind.isClosingBracket,
    TokenKind.opensBlock]

theorem State.Early.reach {state : State} (hearly : state.Early) (tokens : List Token) :
    (reach state tokens).Early := by
  induction tokens generalizing state with
  | nil => exact hearly
  | cons token rest ih =>
      unfold Layout.reach
      split
      · exact ih hearly
      · exact ih (hearly.step token)

/-! ## Items of the outermost block -/

/-- A token in front of which there is the mark of an item, and the block whose item it is lies in
no other block or bracket. -/
structure BeginsItem (token : Token) (state : State) : Prop where
  content : token.kind.IsContent
  marked : .semi ∈ (step token state).1
  outermost : (arrive token.kind state).2.length = 1

theorem semi_not_mem_openPending (kind : TokenKind) (state : State) :
    .semi ∉ (openPending kind state).1 := by
  unfold openPending
  repeat' split
  all_goals simp

theorem contexts_openPending {kind : TokenKind} {state : State}
    (hclosed : (openPending kind state).2.2 = false) :
    (openPending kind state).2.1 = state.contexts := by
  unfold openPending at hclosed ⊢
  repeat' split
  all_goals simp_all

/-- The mark of an item is the last one, and is that of a line which begins at the column of the
innermost block. -/
theorem lined_of_semi {kind : TokenKind} {state : State} (hsemi : .semi ∈ (arrive kind state).1) :
    (openPending kind (decideModule kind state)).2.2 = false ∧
      isAt state.column (arrive kind state).2 = true ∧
      ∃ opening, (arrive kind state).1 = opening ++ [.semi] := by
  have hopening := semi_not_mem_openPending kind (decideModule kind state)
  unfold arrive at hsemi ⊢
  dsimp only at hsemi ⊢
  have hlined := (List.mem_append.mp hsemi).resolve_left hopening
  split at hlined
  · next hline =>
      simp only [Bool.and_eq_true, Bool.not_eq_true'] at hline
      rw [if_pos (by simp [hline])]
      have hitem := (List.mem_append.mp hlined).resolve_left fun hclosed =>
        nomatch List.eq_of_mem_replicate hclosed
      split at hitem
      · next hat =>
          refine ⟨hline.1, hat, ?_⟩
          simp only [beginLine, if_pos hat]
          exact ⟨_, (List.append_assoc _ _ _).symm⟩
      · cases hitem
  · cases hlined

namespace BeginsItem

variable {token : Token} {state : State} (hbegins : BeginsItem token state)

include hbegins

theorem semi_mem : .semi ∈ (arrive token.kind state).1 := by
  have hmarked := hbegins.marked
  rw [step_eq] at hmarked
  exact (List.mem_append.mp hmarked).resolve_right fun hclosed =>
    nomatch List.eq_of_mem_replicate hclosed

theorem exists_block : ∃ ofLet, (arrive token.kind state).2 = [.block state.column ofLet] := by
  obtain ⟨-, hat, -⟩ := lined_of_semi hbegins.semi_mem
  obtain ⟨context, hcontext⟩ := List.length_eq_one_iff.mp hbegins.outermost
  rw [hcontext] at hat ⊢
  cases context with
  | bracket => cases hat
  | block column ofLet =>
      obtain rfl : state.column = column := by simpa [isAt] using hat
      exact ⟨ofLet, rfl⟩

theorem settled (hearly : state.Early) : state.undecided = false := by
  refine Bool.eq_false_iff.mpr fun hundecided => ?_
  obtain ⟨ofLet, hblock⟩ := hbegins.exists_block
  have hopening := contexts_openPending (lined_of_semi hbegins.semi_mem).1
  rw [(column_decideModule token.kind state).2.2, (hearly hundecided).1] at hopening
  unfold arrive at hblock
  dsimp only at hblock
  rw [hopening] at hblock
  split at hblock <;> cases hblock

theorem arrive_eq (hearly : state.Early) {kind : TokenKind}
    (hpending : token.kind = .leftBrace ∨ kind = .leftBrace → state.pending = none) :
    arrive kind state = arrive token.kind state := by
  have hdecide (kind : TokenKind) : decideModule kind state = state := by
    simp [decideModule, hbegins.settled hearly]
  have hopening : openPending kind state = openPending token.kind state := by
    unfold openPending
    cases hcase : state.pending with
    | none => rfl
    | some ofLet =>
        rw [hcase] at hpending
        have hkinds := mt hpending (Option.some_ne_none _)
        rw [not_or] at hkinds
        simp only [hkinds.1, hkinds.2, if_false]
  unfold arrive
  rw [hdecide, hdecide, hopening]

end BeginsItem

/-! ## A closing bracket on its own line -/

/-- A closing bracket that no other bracket has opened closes nothing. -/
theorem closeBy_stray {kind : TokenKind} (hclosing : kind.isClosingBracket = true)
    (column : Nat) (ofLet : Bool) :
    closeBy kind [.block column ofLet] = (0, [.block column ofLet]) := by
  have hkind : kind ≠ .kwIn := by
    rintro rfl
    cases hclosing
  simp [closeBy, hkind, hclosing, closeBracket?]

theorem advance_newLine (column : Nat) (spaces : Nat) :
    advance column ('\n' :: List.replicate spaces ' ') = spaces := by
  have hspaces (column : Nat) : advance column (List.replicate spaces ' ') = column + spaces := by
    induction spaces generalizing column with
    | zero => rfl
    | succ spaces ih =>
        rw [List.replicate_succ]
        exact (ih (column + 1)).trans (by omega)
  exact (hspaces 0).trans (Nat.zero_add _)

namespace BeginsItem

variable {token closer blank : Token} {state : State}

theorem pass_stray {ofLet : Bool} (hsettled : state.undecided = false)
    (hclosing : closer.kind.isClosingBracket = true) (hblank : blank.kind = .whitespace)
    (htext : blank.text = String.ofList ('\n' :: List.replicate state.column ' ')) :
    pass blank (leave closer [.block state.column ofLet] state) =
      ⟨[.block state.column ofLet], none, false, state.column, true⟩ := by
  have hcloser : closer.kind.isOpeningBracket = false ∧ closer.kind.opensBlock = false := by
    cases hcase : closer.kind <;>
      simp_all [TokenKind.isClosingBracket, TokenKind.isOpeningBracket, TokenKind.opensBlock]
  simp [pass, leave, decideModule, hsettled, hcloser, htext, advance_newLine, Token.isTrivia, hblank,
    TokenKind.isTrivia]

/-- Behind that the item begins once more, and leaves behind what it would have left. -/
theorem step_again {token : Token} (htoken : token.isTrivia = false) {ofLet : Bool}
    (hsettled : state.undecided = false) :
    step token ⟨[.block state.column ofLet], none, false, state.column, true⟩ =
      (.semi :: List.replicate (closeBy token.kind [.block state.column ofLet]).1 .rightBrace,
        leave token (closeBy token.kind [.block state.column ofLet]).2 state) := by
  have harrive : arrive token.kind ⟨[.block state.column ofLet], none, false, state.column, true⟩ =
      ([.semi], [.block state.column ofLet]) := by
    simp [arrive, decideModule, openPending, beginLine, closeDeeper, isAt]
  rw [step_eq, harrive]
  simp [leave, decideModule, hsettled, pass, htoken]

/-- In front of an item of the outermost block, a closing bracket with a line break and blanks up
to the column of the block takes over the marks of the line, and leaves the item another one. -/
theorem detour (hbegins : BeginsItem token state) (hearly : state.Early)
    (hpending : token.kind = .leftBrace → state.pending = none)
    (hclosing : closer.kind.isClosingBracket = true)
    (hblank : blank.kind = .whitespace)
    (htext : blank.text = String.ofList ('\n' :: List.replicate state.column ' ')) :
    ∃ opening closing, (arrive token.kind state).1 = opening ++ [.semi] ∧
      (step token state).1 = opening ++ .semi :: closing ∧
      (step closer state).1 = opening ++ [.semi] ∧
      step token (pass blank (step closer state).2) = (.semi :: closing, (step token state).2) := by
  obtain ⟨ofLet, hblock⟩ := hbegins.exists_block
  obtain ⟨-, -, opening, hopening⟩ := lined_of_semi hbegins.semi_mem
  have hsettled := hbegins.settled hearly
  have harrive : arrive closer.kind state = arrive token.kind state := by
    refine hbegins.arrive_eq hearly fun hkind => hpending (hkind.resolve_right fun hcloser => ?_)
    rw [hcloser] at hclosing
    cases hclosing
  refine ⟨opening, List.replicate (closeBy token.kind [.block state.column ofLet]).1 .rightBrace,
    hopening, ?_, ?_, ?_⟩
  · rw [step_eq, hopening, hblock, List.append_assoc]
    rfl
  · rw [step_eq, harrive, hopening, hblock, closeBy_stray hclosing]
    exact List.append_nil _
  · rw [step_eq closer, harrive, hblock, closeBy_stray hclosing,
      pass_stray hsettled hclosing hblank htext, step_again hbegins.content.2 hsettled, step_eq token state,
      hblock]

end BeginsItem

end Layout

end LosslessTree
