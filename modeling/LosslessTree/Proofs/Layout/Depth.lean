import LosslessTree.Proofs.Grammar.Brackets
import LosslessTree.Proofs.Layout.Items

/-!
How deep a token stands is at most how many contexts are open there: whatever opens a bracket opens
a context, and a context is closed by a bracket only.
-/

namespace LosslessTree

namespace Layout

open TokenKind

theorem walk?_replicate {depth after count : Nat}
    (hwalk : walk? depth (List.replicate count .rightBrace) = some after) :
    after + count = depth := by
  induction count generalizing depth with
  | zero => exact (Option.some.inj hwalk).symm
  | succ count ih =>
      rw [List.replicate_succ, walk?_cons] at hwalk
      cases depth with
      | zero => cases hwalk
      | succ depth => exact congrArg Nat.succ (ih hwalk)

theorem length_closeDeeper (column : Nat) (contexts : List Context) :
    (closeDeeper column contexts).2.length + (closeDeeper column contexts).1 = contexts.length := by
  induction contexts with
  | nil => rfl
  | cons context below ih =>
      cases context with
      | bracket => rfl
      | block indent ofLet =>
          unfold closeDeeper
          split
          · exact congrArg Nat.succ ih
          · rfl

theorem length_closeLet? {contexts left : List Context} {closed : Nat}
    (hlet : closeLet? contexts = some (closed, left)) : left.length + closed = contexts.length := by
  induction contexts generalizing closed with
  | nil => cases hlet
  | cons context below ih =>
      cases context with
      | bracket => cases hlet
      | block column ofLet =>
          unfold closeLet? at hlet
          split at hlet
          · cases hlet
            rfl
          · obtain ⟨⟨others, rest⟩, hbelow, heq⟩ := Option.map_eq_some_iff.mp hlet
            cases heq
            exact congrArg Nat.succ (ih hbelow)

theorem length_closeBracket? {contexts left : List Context} {closed : Nat}
    (hbracket : closeBracket? contexts = some (closed, left)) :
    left.length + closed + 1 = contexts.length := by
  induction contexts generalizing closed with
  | nil => cases hbracket
  | cons context below ih =>
      cases context with
      | bracket =>
          cases hbracket
          rfl
      | block column ofLet =>
          obtain ⟨⟨others, rest⟩, hbelow, heq⟩ := Option.map_eq_some_iff.mp hbracket
          cases heq
          exact congrArg Nat.succ (ih hbelow)

variable {depth after : Nat} {state : State}

theorem depth_openPending {kind : TokenKind}
    (hwalk : walk? depth (openPending kind state).1 = some after)
    (hdepth : depth ≤ state.contexts.length) :
    after ≤ (openPending kind state).2.1.length := by
  unfold openPending at hwalk ⊢
  repeat' split at hwalk
  all_goals
    obtain rfl := Option.some.inj hwalk
    simp_all

theorem depth_beginLine {column : Nat} {contexts : List Context}
    (hwalk : walk? depth (beginLine column contexts).1 = some after)
    (hdepth : depth ≤ contexts.length) : after ≤ (beginLine column contexts).2.length := by
  have hlength := length_closeDeeper column contexts
  obtain ⟨middle, hclosed, hitem⟩ := exists_walk?_of_append hwalk
  have hmiddle := walk?_replicate hclosed
  have hafter : after = middle := by
    split at hitem
    · exact (Option.some.inj (walk?_semi hitem).2).symm
    · exact (Option.some.inj hitem).symm
  change after ≤ (closeDeeper column contexts).2.length
  omega

theorem depth_arrive {kind : TokenKind} (hwalk : walk? depth (arrive kind state).1 = some after)
    (hdepth : depth ≤ state.contexts.length) : after ≤ (arrive kind state).2.length := by
  unfold arrive at hwalk ⊢
  dsimp only at hwalk ⊢
  obtain ⟨middle, hopened, hlined⟩ := exists_walk?_of_append hwalk
  rw [← (column_decideModule kind state).2.2] at hdepth
  have hmiddle := depth_openPending hopened hdepth
  split at hlined
  · next hline =>
      rw [if_pos hline]
      exact depth_beginLine hlined hmiddle
  · next hline =>
      rw [if_neg hline, ← Option.some.inj hlined]
      exact hmiddle

/-- A token closes blocks, and one context more only if it is a closing bracket. -/
theorem length_closeBy (kind : TokenKind) (contexts : List Context) :
    contexts.length ≤ (closeBy kind contexts).2.length + (closeBy kind contexts).1 +
      kind.isClosingBracket.toNat := by
  unfold closeBy
  split
  · cases hlet : closeLet? contexts with
    | none => exact Nat.le_add_right _ _
    | some result => exact Nat.le_add_right_of_le (Nat.le_of_eq (length_closeLet? hlet).symm)
  · split
    · next hclosing =>
        rw [hclosing]
        cases hbracket : closeBracket? contexts with
        | none => exact Nat.le_add_right _ _
        | some result => exact Nat.le_of_eq (length_closeBracket? hbracket).symm
    · exact Nat.le_add_right _ _

theorem depth_leave {token : Token} {contexts : List Context}
    (hdepth : (closeBy token.kind contexts).1 + depth ≤ contexts.length)
    (hkind : depthAfter? depth token.kind = some after) :
    after ≤ (leave token (closeBy token.kind contexts).2 state).contexts.length := by
  have hlength := length_closeBy token.kind contexts
  change after ≤ (if token.kind.isOpeningBracket then
    Context.bracket :: (closeBy token.kind contexts).2
      else (closeBy token.kind contexts).2).length
  unfold depthAfter? at hkind
  split at hkind
  · next hopening =>
      have hclosing : token.kind.isClosingBracket = false := by
        cases hcase : token.kind <;> simp_all [isOpeningBracket, isClosingBracket]
      rw [hclosing, Bool.toNat_false] at hlength
      rw [if_pos hopening, ← Option.some.inj hkind, List.length_cons]
      omega
  · next hopening =>
      rw [if_neg hopening]
      split at hkind
      · next hclosing =>
          rw [hclosing, Bool.toNat_true] at hlength
          cases depth with
          | zero => cases hkind
          | succ depth =>
              obtain rfl := Option.some.inj hkind
              omega
      · next hclosing =>
          rw [Bool.eq_false_iff.mpr hclosing, Bool.toNat_false] at hlength
          split at hkind
          · cases hkind
          · obtain rfl := Option.some.inj hkind
            omega

theorem depth_step {token : Token}
    (hwalk : walk? depth ((step token state).1 ++ [token.kind]) = some after)
    (hdepth : depth ≤ state.contexts.length) : after ≤ (step token state).2.contexts.length := by
  rw [step_eq] at hwalk ⊢
  dsimp only at hwalk ⊢
  rw [List.append_assoc] at hwalk
  obtain ⟨middle, harrive, hrest⟩ := exists_walk?_of_append hwalk
  obtain ⟨inner, hclosed, hkind⟩ := exists_walk?_of_append hrest
  have hmiddle := depth_arrive harrive hdepth
  have hinner := walk?_replicate hclosed
  rw [walk?_cons] at hkind
  obtain ⟨last, hlast, hnil⟩ := Option.bind_eq_some_iff.mp hkind
  rw [← Option.some.inj hnil]
  exact depth_leave (by omega) hlast

def kindsOf (tokens : List Token) : List TokenKind :=
  (tokens.filter (!·.isTrivia)).map (·.kind)

theorem kindsOf_append (tokens more : List Token) :
    kindsOf (tokens ++ more) = kindsOf tokens ++ kindsOf more := by
  rw [kindsOf, List.filter_append, List.map_append]
  rfl

theorem kindsOf_cons_of_trivia {token : Token} (htrivia : token.isTrivia = true)
    (rest : List Token) : kindsOf (token :: rest) = kindsOf rest := by
  rw [kindsOf, List.filter_cons_of_neg (by simp [htrivia])]
  rfl

theorem kindsOf_cons {token : Token} (htrivia : token.isTrivia = false) (rest : List Token) :
    kindsOf (token :: rest) = token.kind :: kindsOf rest := by
  rw [kindsOf, List.filter_cons_of_pos (by simp [htrivia])]
  rfl

theorem kindsOf_marksAt (token : Token) {marks : List TokenKind}
    (hmarks : ∀ mark ∈ marks, IsMark mark) : kindsOf (marksAt token marks) = marks := by
  induction marks with
  | nil => rfl
  | cons mark rest ih =>
      obtain ⟨hmark, hrest⟩ := List.forall_mem_cons.mp hmarks
      have htrivia : (Token.zeroWidth mark token.span.start).isTrivia = false := hmark.not_trivia
      rw [marksAt, List.map_cons, kindsOf_cons htrivia]
      exact congrArg _ (ih hrest)

theorem depth_reach {before : List Token}
    (hwalk : walk? depth (kindsOf (marked state before)) = some after)
    (hdepth : depth ≤ state.contexts.length) : after ≤ (reach state before).contexts.length := by
  induction before generalizing depth state with
  | nil => exact Option.some.inj hwalk ▸ hdepth
  | cons token rest ih =>
      unfold marked at hwalk
      unfold reach
      split at hwalk
      · next htrivia =>
          rw [if_pos htrivia]
          rw [kindsOf_cons_of_trivia htrivia] at hwalk
          exact ih hwalk hdepth
      · next htrivia =>
          rw [if_neg htrivia]
          have hkinds := kindsOf_marksAt token (step_marks token state)
          rw [kindsOf_append, kindsOf_cons (Bool.eq_false_iff.mpr htrivia), hkinds,
            List.append_cons] at hwalk
          obtain ⟨middle, hfirst, hrest⟩ := exists_walk?_of_append hwalk
          exact ih hrest (depth_step hfirst hdepth)

end Layout

end LosslessTree
