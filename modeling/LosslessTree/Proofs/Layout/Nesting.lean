import Mathlib.Data.List.Perm.Basic
import LosslessTree.Proofs.Layout.Items

/-!
Blocks and brackets lie within each other. The marks that open and close blocks make pairs of which
none crosses another one or a pair of brackets of the text. A bracket that nothing closes goes on to
the end of the text, and the blocks around it end there too.
-/

namespace LosslessTree

namespace Layout

/-! ## Pairs of positions -/

/-- Stretches between two positions that lie apart, or one of them within the other. -/
def Nests (one other : Nat × Nat) : Prop :=
  one.2 < other.1 ∨ other.2 < one.1 ∨ (one.1 < other.1 ∧ other.2 < one.2) ∨
    (other.1 < one.1 ∧ one.2 < other.2)

theorem Nests.symm {one other : Nat × Nat} (hnests : Nests one other) : Nests other one := by
  unfold Nests at *
  omega

/-- Where the brackets of the text are: the pairs, and those still open, the innermost first. -/
structure Brackets where
  pairs : List (Nat × Nat)
  opened : List Nat

/-- A closing bracket belongs to the innermost open one, whatever the two look like. Where none is
open it belongs to none. -/
def Brackets.add (brackets : Brackets) (entry : Token × Nat) : Brackets :=
  if entry.1.isVirtual then brackets
  else if entry.1.kind.isOpeningBracket then
    { brackets with opened := entry.2 :: brackets.opened }
  else if entry.1.kind.isClosingBracket then
    match brackets.opened with
    | [] => brackets
    | other :: rest => ⟨(other, entry.2) :: brackets.pairs, rest⟩
  else brackets

def Brackets.ofTokens (tokens : List Token) : Brackets :=
  tokens.zipIdx.foldl Brackets.add ⟨[], []⟩

def marksOf (kind : TokenKind) (tokens : List Token) : List Nat :=
  (tokens.zipIdx.filter fun entry => entry.1.isVirtual && entry.1.kind == kind).map (·.2)

/-- The marks of blocks make pairs, each mark one, and the pairs are nested with each other and with
the brackets of the text. -/
structure Nested (tokens : List Token) (blocks : List (Nat × Nat)) : Prop where
  starts : (blocks.map (·.1)).Perm (marksOf .leftBrace tokens)
  stops : (blocks.map (·.2)).Perm (marksOf .rightBrace tokens)
  forward : ∀ block ∈ blocks, block.1 < block.2
  nests : (blocks ++ (Brackets.ofTokens tokens).pairs).Pairwise Nests
  unclosed : ∀ block ∈ blocks, ∀ bracket ∈ (Brackets.ofTokens tokens).opened,
    bracket < block.1 ∨ block.2 < bracket ∨ ∀ token ∈ tokens.drop block.2, token.text = ""

theorem Brackets.ofTokens_concat (tokens : List Token) (token : Token) :
    ofTokens (tokens ++ [token]) = (ofTokens tokens).add (token, tokens.length) := by
  simp [ofTokens, List.zipIdx_append]

theorem marksOf_concat (kind : TokenKind) (tokens : List Token) (token : Token) :
    marksOf kind (tokens ++ [token]) = marksOf kind tokens ++
      if token.isVirtual && token.kind == kind then [tokens.length] else [] := by
  simp only [marksOf, List.zipIdx_append, List.filter_append, List.map_append, List.zipIdx_singleton,
    List.filter_singleton, Nat.zero_add]
  cases token.isVirtual && token.kind == kind <;> rfl

/-! ## Open stretches -/

/-- Pairs and what is still open, blocks and brackets alike, the innermost first. -/
structure Paired (tokens : List Token) (blocks : List (Nat × Nat)) (opened : List (Bool × Nat)) :
    Prop where
  starts : (blocks.map (·.1) ++ (opened.filter (·.1)).map (·.2)).Perm (marksOf .leftBrace tokens)
  stops : (blocks.map (·.2)).Perm (marksOf .rightBrace tokens)
  sorted : opened.Pairwise fun inner outer => outer.2 < inner.2
  inside : ∀ entry ∈ opened, entry.2 < tokens.length
  forward : ∀ pair ∈ blocks ++ (Brackets.ofTokens tokens).pairs,
    pair.1 < pair.2 ∧ pair.2 < tokens.length
  apart : ∀ pair ∈ blocks ++ (Brackets.ofTokens tokens).pairs, ∀ entry ∈ opened,
    entry.2 < pair.1 ∨ pair.2 < entry.2
  nests : (blocks ++ (Brackets.ofTokens tokens).pairs).Pairwise Nests

namespace Paired

variable {tokens : List Token} {blocks : List (Nat × Nat)} {opened : List (Bool × Nat)}
  {token : Token}

theorem nil : Paired [] [] [] where
  starts := .nil
  stops := .nil
  sorted := .nil
  inside _ hentry := absurd hentry List.not_mem_nil
  forward _ hpair := absurd hpair List.not_mem_nil
  apart _ hpair := absurd hpair List.not_mem_nil
  nests := .nil

theorem leave {position : Nat} (hpaired : Paired tokens blocks ((false, position) :: opened)) :
    Paired tokens blocks opened where
  starts := hpaired.starts
  stops := hpaired.stops
  sorted := (List.pairwise_cons.mp hpaired.sorted).2
  inside entry hentry := hpaired.inside entry (List.mem_cons_of_mem _ hentry)
  forward := hpaired.forward
  apart pair hpair entry hentry := hpaired.apart pair hpair entry (List.mem_cons_of_mem _ hentry)
  nests := hpaired.nests

theorem keep (hpaired : Paired tokens blocks opened)
    (hpairs : (Brackets.ofTokens (tokens ++ [token])).pairs = (Brackets.ofTokens tokens).pairs)
    (hleft : ¬(token.isVirtual = true ∧ token.kind = .leftBrace))
    (hright : ¬(token.isVirtual = true ∧ token.kind = .rightBrace)) :
    Paired (tokens ++ [token]) blocks opened := by
  have hlength : tokens.length < (tokens ++ [token]).length := by simp
  constructor
  · rw [marksOf_concat]
    simpa [hleft] using hpaired.starts
  · rw [marksOf_concat]
    simpa [hright] using hpaired.stops
  · exact hpaired.sorted
  · exact fun entry hentry => Nat.lt_trans (hpaired.inside entry hentry) hlength
  · rw [hpairs]
    exact fun pair hpair => ⟨(hpaired.forward pair hpair).1,
      Nat.lt_trans (hpaired.forward pair hpair).2 hlength⟩
  · rw [hpairs]
    exact hpaired.apart
  · rw [hpairs]
    exact hpaired.nests

theorem enter (hpaired : Paired tokens blocks opened) (block : Bool)
    (hpairs : (Brackets.ofTokens (tokens ++ [token])).pairs = (Brackets.ofTokens tokens).pairs)
    (hleft : (token.isVirtual = true ∧ token.kind = .leftBrace) ↔ block = true)
    (hright : ¬(token.isVirtual = true ∧ token.kind = .rightBrace)) :
    Paired (tokens ++ [token]) blocks ((block, tokens.length) :: opened) := by
  constructor
  · rw [marksOf_concat]
    have hstarts := hpaired.starts
    cases block with
    | true =>
        rw [if_pos (by simpa using hleft.mpr rfl), List.filter_cons_of_pos rfl, List.map_cons]
        exact List.perm_middle.trans ((List.Perm.cons _ hstarts).trans
          (List.perm_append_singleton _ _).symm)
    | false =>
        rw [if_neg (by simpa using hleft), List.filter_cons_of_neg (by simp), List.append_nil]
        exact hstarts
  · rw [marksOf_concat]
    simpa [hright] using hpaired.stops
  · exact List.pairwise_cons.mpr ⟨hpaired.inside, hpaired.sorted⟩
  · refine List.forall_mem_cons.mpr ⟨by simp, fun entry hentry => ?_⟩
    have hinside := hpaired.inside entry hentry
    simp only [List.length_append, List.length_singleton]
    omega
  · rw [hpairs]
    intro pair hpair
    have hforward := hpaired.forward pair hpair
    simp only [List.length_append, List.length_singleton]
    omega
  · rw [hpairs]
    exact fun pair hpair => List.forall_mem_cons.mpr
      ⟨.inr (hpaired.forward pair hpair).2, hpaired.apart pair hpair⟩
  · rw [hpairs]
    exact hpaired.nests

/-- The innermost stretch, once it is closed, lies apart from all pairs or around them. -/
theorem nests_close {block : Bool} {position : Nat}
    (hpaired : Paired tokens blocks ((block, position) :: opened)) :
    ∀ pair ∈ blocks ++ (Brackets.ofTokens tokens).pairs, Nests (position, tokens.length) pair := by
  intro pair hpair
  have hforward := hpaired.forward pair hpair
  have hapart := hpaired.apart pair hpair _ List.mem_cons_self
  unfold Nests
  dsimp only at hapart ⊢
  omega

theorem closeBlock {position : Nat} (hpaired : Paired tokens blocks ((true, position) :: opened))
    (hvirtual : token.isVirtual = true) (hkind : token.kind = .rightBrace) :
    Paired (tokens ++ [token]) ((position, tokens.length) :: blocks) opened := by
  have hpairs : Brackets.ofTokens (tokens ++ [token]) = Brackets.ofTokens tokens := by
    rw [Brackets.ofTokens_concat, Brackets.add, if_pos hvirtual]
  obtain ⟨hinner, hsorted⟩ := List.pairwise_cons.mp hpaired.sorted
  obtain ⟨hposition, hinside⟩ := List.forall_mem_cons.mp hpaired.inside
  constructor
  · rw [marksOf_concat, if_neg (by simp [hkind]), List.append_nil]
    have hstarts := hpaired.starts
    rw [List.filter_cons_of_pos rfl, List.map_cons] at hstarts
    exact List.perm_middle.symm.trans hstarts
  · rw [marksOf_concat, if_pos (by simp [hvirtual, hkind])]
    exact (List.Perm.cons _ hpaired.stops).trans (List.perm_append_singleton _ _).symm
  · exact hsorted
  · intro entry hentry
    have hentry := hinside entry hentry
    simp only [List.length_append, List.length_singleton]
    omega
  · rw [hpairs]
    simp only [List.length_append, List.length_singleton]
    refine List.forall_mem_cons.mpr ⟨⟨hposition, Nat.lt_succ_self _⟩, fun pair hpair => ?_⟩
    have hforward := hpaired.forward pair hpair
    omega
  · rw [hpairs]
    exact List.forall_mem_cons.mpr ⟨fun entry hentry => .inl (hinner entry hentry),
      fun pair hpair entry hentry => hpaired.apart pair hpair entry (List.mem_cons_of_mem _ hentry)⟩
  · rw [hpairs]
    exact List.pairwise_cons.mpr ⟨hpaired.nests_close, hpaired.nests⟩

theorem closeBracket {position : Nat}
    (hpaired : Paired tokens blocks ((false, position) :: opened)) (hvirtual : token.isVirtual = false)
    (hpairs : (Brackets.ofTokens (tokens ++ [token])).pairs =
      (position, tokens.length) :: (Brackets.ofTokens tokens).pairs) :
    Paired (tokens ++ [token]) blocks opened := by
  obtain ⟨hinner, hsorted⟩ := List.pairwise_cons.mp hpaired.sorted
  obtain ⟨hposition, hinside⟩ := List.forall_mem_cons.mp hpaired.inside
  have hmem : ∀ pair ∈ blocks ++ (Brackets.ofTokens (tokens ++ [token])).pairs,
      pair = (position, tokens.length) ∨ pair ∈ blocks ++ (Brackets.ofTokens tokens).pairs := by
    intro pair hpair
    rw [hpairs] at hpair
    simpa [or_left_comm] using hpair
  constructor
  · rw [marksOf_concat, if_neg (by simp [hvirtual]), List.append_nil]
    exact hpaired.starts
  · rw [marksOf_concat, if_neg (by simp [hvirtual]), List.append_nil]
    exact hpaired.stops
  · exact hsorted
  · intro entry hentry
    have hentry := hinside entry hentry
    simp only [List.length_append, List.length_singleton]
    omega
  · intro pair hpair
    simp only [List.length_append, List.length_singleton]
    rcases hmem pair hpair with rfl | hold
    · exact ⟨hposition, Nat.lt_succ_self _⟩
    · have hforward := hpaired.forward pair hold
      omega
  · intro pair hpair entry hentry
    rcases hmem pair hpair with rfl | hold
    · exact .inl (hinner entry hentry)
    · exact hpaired.apart pair hold entry (List.mem_cons_of_mem _ hentry)
  · rw [hpairs]
    have hperm : (blocks ++ (position, tokens.length) :: (Brackets.ofTokens tokens).pairs).Perm
        ((position, tokens.length) :: (blocks ++ (Brackets.ofTokens tokens).pairs)) :=
      List.perm_middle
    exact (hperm.pairwise_iff fun hnests => hnests.symm).mpr
      (List.pairwise_cons.mpr ⟨hpaired.nests_close, hpaired.nests⟩)

end Paired

/-! ## What the marks do -/

/-- Marks that open blocks, begin items and close blocks, from some contexts to others. -/
inductive Moves : List Context → List TokenKind → List Context → Prop where
  | nil (contexts : List Context) : Moves contexts [] contexts
  | enter (column : Nat) (ofLet : Bool) {contexts after : List Context} {marks : List TokenKind} :
      Moves (.block column ofLet :: contexts) marks after →
        Moves contexts (.leftBrace :: marks) after
  | item {contexts after : List Context} {marks : List TokenKind} :
      Moves contexts marks after → Moves contexts (.semi :: marks) after
  | close {column : Nat} {ofLet : Bool} {contexts after : List Context} {marks : List TokenKind} :
      Moves contexts marks after →
        Moves (.block column ofLet :: contexts) (.rightBrace :: marks) after

theorem Moves.append {before middle after : List Context} {marks more : List TokenKind}
    (hfirst : Moves before marks middle) (hsecond : Moves middle more after) :
    Moves before (marks ++ more) after := by
  induction hfirst with
  | nil => exact hsecond
  | enter column ofLet _ ih => exact .enter column ofLet (ih hsecond)
  | item _ ih => exact .item (ih hsecond)
  | close _ ih => exact .close (ih hsecond)

theorem openPending_moves (kind : TokenKind) (state : State) :
    Moves state.contexts (openPending kind state).1 (openPending kind state).2.1 := by
  unfold openPending
  repeat' split
  · exact .nil _
  · exact .enter _ _ (.nil _)
  · exact .enter 0 false (.close (.nil _))
  · exact .nil _

theorem closeDeeper_moves (column : Nat) (contexts : List Context) :
    Moves contexts (List.replicate (closeDeeper column contexts).1 .rightBrace)
      (closeDeeper column contexts).2 := by
  induction contexts with
  | nil => exact .nil _
  | cons context below ih =>
      cases context with
      | bracket => exact .nil _
      | block indent ofLet =>
          unfold closeDeeper
          split
          · exact .close ih
          · exact .nil _

theorem beginLine_moves (column : Nat) (contexts : List Context) :
    Moves contexts (beginLine column contexts).1 (beginLine column contexts).2 := by
  refine (closeDeeper_moves column contexts).append ?_
  split
  · exact .item (.nil _)
  · exact .nil _

theorem arrive_moves (kind : TokenKind) (state : State) :
    Moves state.contexts (arrive kind state).1 (arrive kind state).2 := by
  have hopening := openPending_moves kind (decideModule kind state)
  rw [(column_decideModule kind state).2.2] at hopening
  unfold arrive
  dsimp only
  refine hopening.append ?_
  split
  · exact beginLine_moves _ _
  · exact .nil _

theorem closeLet?_moves {contexts left : List Context} {closed : Nat}
    (hlet : closeLet? contexts = some (closed, left)) :
    Moves contexts (List.replicate closed .rightBrace) left := by
  induction contexts generalizing closed with
  | nil => cases hlet
  | cons context below ih =>
      cases context with
      | bracket => cases hlet
      | block column ofLet =>
          unfold closeLet? at hlet
          split at hlet
          · obtain ⟨rfl, rfl⟩ := Prod.mk.inj (Option.some.inj hlet)
            exact .close (.nil _)
          · obtain ⟨⟨inner, rest⟩, hbelow, heq⟩ := Option.map_eq_some_iff.mp hlet
            obtain ⟨rfl, rfl⟩ := Prod.mk.inj heq
            exact .close (ih hbelow)

theorem closeBracket?_moves {contexts left : List Context} {closed : Nat}
    (hbracket : closeBracket? contexts = some (closed, left)) :
    Moves contexts (List.replicate closed .rightBrace) (.bracket :: left) := by
  induction contexts generalizing closed with
  | nil => cases hbracket
  | cons context below ih =>
      cases context with
      | bracket =>
          obtain ⟨rfl, rfl⟩ := Prod.mk.inj (Option.some.inj hbracket)
          exact .nil _
      | block column ofLet =>
          obtain ⟨⟨inner, rest⟩, hbelow, heq⟩ := Option.map_eq_some_iff.mp hbracket
          obtain ⟨rfl, rfl⟩ := Prod.mk.inj heq
          exact .close (ih hbelow)

theorem closeBracket?_none {contexts : List Context} (hnone : closeBracket? contexts = none) :
    .bracket ∉ contexts := by
  induction contexts with
  | nil => exact List.not_mem_nil
  | cons context below ih =>
      cases context with
      | bracket => cases hnone
      | block column ofLet => simpa using ih (Option.map_eq_none_iff.mp hnone)

/-- What a token of the text does to the contexts behind its marks. -/
inductive Passes (kind : TokenKind) (contexts : List Context) : List Context → Prop where
  | opening (hkind : kind.isOpeningBracket = true) : Passes kind contexts (.bracket :: contexts)
  | closing {below : List Context} (hkind : kind.isClosingBracket = true)
      (hcontexts : contexts = .bracket :: below) : Passes kind contexts below
  | stray (hkind : kind.isClosingBracket = true) (hcontexts : .bracket ∉ contexts) :
      Passes kind contexts contexts
  | other (hopening : kind.isOpeningBracket = false) (hclosing : kind.isClosingBracket = false) :
      Passes kind contexts contexts

theorem closeBy_passes (kind : TokenKind) (contexts : List Context) :
    ∃ middle, Moves contexts (List.replicate (closeBy kind contexts).1 .rightBrace) middle ∧
      Passes kind middle (if kind.isOpeningBracket then .bracket :: (closeBy kind contexts).2
        else (closeBy kind contexts).2) := by
  unfold closeBy
  by_cases hin : kind = .kwIn
  · subst hin
    rw [if_pos rfl]
    cases hlet : closeLet? contexts with
    | none => exact ⟨contexts, .nil _, .other rfl rfl⟩
    | some closed => exact ⟨_, closeLet?_moves hlet, .other rfl rfl⟩
  rw [if_neg hin]
  by_cases hclosing : kind.isClosingBracket = true
  · have hopening : kind.isOpeningBracket = false := by
      cases kind <;> first | rfl | cases hclosing
    rw [if_pos hclosing, hopening]
    cases hbracket : closeBracket? contexts with
    | none => exact ⟨contexts, .nil _, .stray hclosing (closeBracket?_none hbracket)⟩
    | some closed => exact ⟨_, closeBracket?_moves hbracket, .closing hclosing rfl⟩
  · rw [if_neg hclosing]
    refine ⟨contexts, .nil _, ?_⟩
    cases hopening : kind.isOpeningBracket with
    | true => exact .opening hopening
    | false => exact .other hopening (Bool.eq_false_iff.mpr hclosing)

/-- The marks of a token lead to what the token finds, from which it goes on. -/
theorem step_moves (token : Token) (state : State) :
    ∃ middle, Moves state.contexts (step token state).1 middle ∧
      Passes token.kind middle (step token state).2.contexts := by
  obtain ⟨middle, hmoves, hpasses⟩ := closeBy_passes token.kind (arrive token.kind state).2
  rw [step_eq]
  exact ⟨middle, (arrive_moves token.kind state).append hmoves, hpasses⟩

/-! ## Runs -/

/-- The contexts are what is open behind some tokens with their marks. -/
def Stands (contexts : List Context) (tokens : List Token) : Prop :=
  ∃ blocks opened, Paired tokens blocks opened ∧
    contexts.map Context.isBlock = opened.map (·.1) ∧
    (Brackets.ofTokens tokens).opened = (opened.filter (!·.1)).map (·.2)

namespace Stands

variable {contexts after : List Context} {tokens : List Token} {token : Token}

theorem nil : Stands [] [] := ⟨[], [], .nil, rfl, rfl⟩

theorem brackets_eq (htoken : token.isVirtual = true ∨
    token.kind.isOpeningBracket = false ∧ token.kind.isClosingBracket = false) :
    Brackets.ofTokens (tokens ++ [token]) = Brackets.ofTokens tokens := by
  rw [Brackets.ofTokens_concat, Brackets.add]
  rcases htoken with hvirtual | ⟨hopening, hclosing⟩
  · rw [if_pos hvirtual]
  · split
    · rfl
    · rw [if_neg (by simp [hopening]), if_neg (by simp [hclosing])]

theorem marks {kinds : List TokenKind} (hmoves : Moves contexts kinds after) (offset : Nat)
    (hstands : Stands contexts tokens) :
    Stands after (tokens ++ kinds.map (Token.zeroWidth · offset)) := by
  induction hmoves generalizing tokens with
  | nil => simpa using hstands
  | enter _ _ _ ih =>
      obtain ⟨blocks, opened, hpaired, hshape, hbrackets⟩ := hstands
      rw [List.map_cons, List.append_cons]
      have heq : Brackets.ofTokens (tokens ++ [Token.zeroWidth .leftBrace offset]) = _ :=
        brackets_eq (.inl (Token.isVirtual_zeroWidth (by decide) offset))
      refine ih ⟨blocks, _, hpaired.enter true (congrArg _ heq) ?_ ?_, ?_, ?_⟩
      · exact iff_of_true ⟨Token.isVirtual_zeroWidth (by decide) offset, rfl⟩ rfl
      · simp [Token.zeroWidth]
      · simp [hshape, Context.isBlock]
      · rw [heq, hbrackets]
        rfl
  | item _ ih =>
      obtain ⟨blocks, opened, hpaired, hshape, hbrackets⟩ := hstands
      rw [List.map_cons, List.append_cons]
      have heq : Brackets.ofTokens (tokens ++ [Token.zeroWidth .semi offset]) = _ :=
        brackets_eq (.inl (Token.isVirtual_zeroWidth (by decide) offset))
      refine ih ⟨blocks, opened, hpaired.keep (congrArg _ heq) ?_ ?_, hshape, ?_⟩
      · simp [Token.zeroWidth]
      · simp [Token.zeroWidth]
      · rw [heq, hbrackets]
  | close _ ih =>
      obtain ⟨blocks, opened, hpaired, hshape, hbrackets⟩ := hstands
      rw [List.map_cons, List.append_cons]
      have hvirtual : (Token.zeroWidth .rightBrace offset).isVirtual = true :=
        Token.isVirtual_zeroWidth (by decide) offset
      have heq : Brackets.ofTokens (tokens ++ [Token.zeroWidth .rightBrace offset]) = _ :=
        brackets_eq (.inl hvirtual)
      cases opened with
      | nil => cases hshape
      | cons entry opened =>
          obtain ⟨hentry, hrest⟩ := List.cons.inj hshape
          obtain ⟨block, position⟩ := entry
          obtain rfl : true = block := hentry
          refine ih ⟨_, opened, hpaired.closeBlock hvirtual rfl, hrest, ?_⟩
          rw [heq, hbrackets]
          rfl

theorem pass (hpasses : Passes token.kind contexts after) (hvirtual : token.isVirtual = false)
    (hstands : Stands contexts tokens) : Stands after (tokens ++ [token]) := by
  obtain ⟨blocks, opened, hpaired, hshape, hbrackets⟩ := hstands
  cases hpasses with
  | opening hkind =>
      have heq : Brackets.ofTokens (tokens ++ [token]) =
          ⟨(Brackets.ofTokens tokens).pairs,
            tokens.length :: (Brackets.ofTokens tokens).opened⟩ := by
        rw [Brackets.ofTokens_concat, Brackets.add, if_neg (by simp [hvirtual]), if_pos hkind]
      refine ⟨blocks, _, hpaired.enter false (by rw [heq]) ?_ ?_, ?_, ?_⟩
      · simp [hvirtual]
      · simp [hvirtual]
      · simp [hshape, Context.isBlock]
      · rw [heq]
        simp [hbrackets]
  | @closing below hkind hcontexts =>
      subst hcontexts
      cases opened with
      | nil => cases hshape
      | cons entry opened =>
          obtain ⟨hentry, hrest⟩ := List.cons.inj hshape
          obtain ⟨block, position⟩ := entry
          obtain rfl : false = block := hentry
          have hinner : (Brackets.ofTokens tokens).opened =
              position :: (opened.filter (!·.1)).map (·.2) := hbrackets
          have hopening : token.kind.isOpeningBracket = false := by
            cases hcase : token.kind <;> first | rfl | (rw [hcase] at hkind; cases hkind)
          have heq : Brackets.ofTokens (tokens ++ [token]) =
              ⟨(position, tokens.length) :: (Brackets.ofTokens tokens).pairs,
                (opened.filter (!·.1)).map (·.2)⟩ := by
            rw [Brackets.ofTokens_concat, Brackets.add, if_neg (by simp [hvirtual]),
              if_neg (by simp [hopening]), if_pos hkind, hinner]
          exact ⟨blocks, opened, hpaired.closeBracket hvirtual (congrArg Brackets.pairs heq), hrest,
            congrArg Brackets.opened heq⟩
  | stray hkind hcontexts =>
      have hnone : (Brackets.ofTokens tokens).opened = [] := by
        rw [hbrackets, List.map_eq_nil_iff, List.filter_eq_nil_iff]
        intro entry hentry
        have hmem := List.mem_map_of_mem (f := (·.1)) hentry
        rw [← hshape] at hmem
        obtain ⟨context, hcontext, hblock⟩ := List.mem_map.mp hmem
        cases context with
        | bracket => exact absurd hcontext hcontexts
        | block column ofLet => simp [← hblock, Context.isBlock]
      have hopening : token.kind.isOpeningBracket = false := by
        cases hcase : token.kind <;> first | rfl | (rw [hcase] at hkind; cases hkind)
      have heq : Brackets.ofTokens (tokens ++ [token]) = Brackets.ofTokens tokens := by
        rw [Brackets.ofTokens_concat, Brackets.add, if_neg (by simp [hvirtual]),
          if_neg (by simp [hopening]), if_pos hkind, hnone]
      refine ⟨blocks, opened, hpaired.keep (congrArg _ heq) ?_ ?_, hshape, ?_⟩
      · simp [hvirtual]
      · simp [hvirtual]
      · rw [heq, hbrackets]
  | other hopening hclosing =>
      have heq : Brackets.ofTokens (tokens ++ [token]) = _ := brackets_eq (.inr ⟨hopening, hclosing⟩)
      refine ⟨blocks, opened, hpaired.keep (congrArg _ heq) ?_ ?_, hshape, ?_⟩
      · simp [hvirtual]
      · simp [hvirtual]
      · rw [heq, hbrackets]

end Stands

/-- At the end of the text the blocks that are left end, also around brackets. -/
theorem Paired.finish {tokens : List Token} {blocks : List (Nat × Nat)} {opened : List (Bool × Nat)}
    {size : Nat} (hpaired : Paired tokens blocks opened) (hsize : size ≤ tokens.length)
    (htail : ∀ token ∈ tokens.drop size, token.text = "")
    (hunclosed : ∀ block ∈ blocks, ∀ bracket ∈ (Brackets.ofTokens tokens).opened,
      bracket < block.1 ∨ block.2 < bracket ∨ size ≤ block.2) (offset : Nat) :
    ∃ all, Nested (tokens ++ (opened.filter (·.1)).map (fun _ => .zeroWidth .rightBrace offset) ++
      [.eof offset]) all := by
  -- A bracket that is still open is passed over: it stays open, and the blocks around it end here.
  induction opened generalizing tokens blocks with
  | nil =>
      have heq : Brackets.ofTokens (tokens ++ [.eof offset]) = _ := Stands.brackets_eq (.inr ⟨rfl, rfl⟩)
      have hend : Paired (tokens ++ [.eof offset]) blocks [] :=
        hpaired.keep (congrArg _ heq) (fun hmark => nomatch hmark.2) (fun hmark => nomatch hmark.2)
      have hstarts := hend.starts
      rw [List.filter_nil, List.map_nil, List.append_nil] at hstarts ⊢
      refine ⟨blocks, hstarts, hend.stops,
        fun block hblock => (hend.forward block (List.mem_append_left _ hblock)).1, hend.nests, ?_⟩
      intro block hblock bracket hbracket
      rw [heq] at hbracket
      refine (hunclosed block hblock bracket hbracket).imp_right (Or.imp_right fun hlow token htoken => ?_)
      have hdrop : token ∈ (tokens ++ [Token.eof offset]).drop size := by
        rw [← Nat.add_sub_cancel' hlow, ← List.drop_drop] at htoken
        exact List.mem_of_mem_drop htoken
      rw [List.drop_append_of_le_length hsize] at hdrop
      rcases List.mem_append.mp hdrop with hold | hnew
      · exact htail token hold
      · rw [List.mem_singleton.mp hnew]
        rfl
  | cons entry opened ih =>
      obtain ⟨block, position⟩ := entry
      cases block with
      | false => exact ih hpaired.leave hsize htail hunclosed
      | true =>
          have hvirtual : (Token.zeroWidth .rightBrace offset).isVirtual = true :=
            Token.isVirtual_zeroWidth (by decide) offset
          have heq : Brackets.ofTokens (tokens ++ [.zeroWidth .rightBrace offset]) = _ :=
            Stands.brackets_eq (.inl hvirtual)
          rw [List.filter_cons_of_pos rfl, List.map_cons, List.append_cons tokens]
          refine ih (hpaired.closeBlock hvirtual rfl) ?_ ?_ ?_
          · rw [List.length_append]
            omega
          · rw [List.drop_append_of_le_length hsize]
            exact List.forall_mem_append.mpr ⟨htail, List.forall_mem_singleton.mpr rfl⟩
          · rw [heq]
            exact List.forall_mem_cons.mpr ⟨fun _ _ => .inr (.inr hsize), hunclosed⟩

/-- At the end of the text nothing but brackets is open. -/
theorem Stands.finish {contexts : List Context} {tokens : List Token}
    (hstands : Stands contexts tokens) (offset : Nat) :
    ∃ blocks, Nested (tokens ++
      (contexts.filter Context.isBlock).map (fun _ => .zeroWidth .rightBrace offset) ++
        [.eof offset]) blocks := by
  obtain ⟨blocks, opened, hpaired, hshape, hbrackets⟩ := hstands
  have hcount : (contexts.filter Context.isBlock).length = (opened.filter (·.1)).length := by
    have hlength := congrArg (List.length ∘ List.filter id) hshape
    simpa only [Function.comp_apply, List.filter_map, List.length_map, Function.id_comp] using hlength
  rw [List.map_const', hcount, ← List.map_const']
  refine hpaired.finish (Nat.le_refl _) ?_ ?_ offset
  · simp
  · intro block hblock bracket hbracket
    rw [hbrackets] at hbracket
    obtain ⟨entry, hentry, rfl⟩ := List.mem_map.mp hbracket
    exact (hpaired.apart block (List.mem_append_left _ hblock) entry
      (List.mem_of_mem_filter hentry)).imp_right .inl

theorem run_nested {tokens : List Token}
    (htokens : ∀ token ∈ tokens, token.kind ≠ .eof ∧ token.isVirtual = false) (stop : Nat)
    (state : State) {before : List Token} (hstands : Stands state.contexts before) :
    ∃ blocks, Nested (before ++ run state (tokens ++ [.eof stop])) blocks := by
  induction tokens generalizing state before with
  | nil =>
      have hpending : Moves state.contexts
          (if state.pending.isSome || state.undecided then [.leftBrace, .rightBrace] else [])
          state.contexts := by
        split
        · exact .enter 0 false (.close (.nil _))
        · exact .nil _
      have hfinish := (hstands.marks hpending stop).finish stop
      have hrun : run state [.eof stop] = marksAt (.eof stop) (finish state) ++ [.eof stop] := rfl
      rw [List.nil_append, hrun, marksAt, Layout.finish, List.map_append, List.map_map]
      simp only [List.append_assoc] at hfinish ⊢
      exact hfinish
  | cons token rest ih =>
      obtain ⟨⟨hkind, hvirtual⟩, hrest⟩ := List.forall_mem_cons.mp htokens
      rw [List.cons_append]
      cases htrivia : token.isTrivia with
      | true =>
          rw [run_of_trivia htrivia, List.append_cons]
          refine ih hrest _ (Stands.pass (.other ?_ ?_) hvirtual hstands)
          all_goals
            unfold Token.isTrivia at htrivia
            cases hcase : token.kind <;> first | rfl | (rw [hcase] at htrivia; cases htrivia)
      | false =>
          obtain ⟨middle, hmoves, hpasses⟩ := step_moves token state
          rw [run_of_significant htrivia hkind, ← List.append_assoc, List.append_cons]
          exact ih hrest _ ((hstands.marks hmoves token.span.start).pass hpasses hvirtual)

/-- In a text with its marks, each mark that opens a block belongs to one later mark that closes it
and the other way round. These pairs nest with each other and with the pairs of brackets, of which a
closing one belongs to the innermost that is open; one that is never closed ends with the text. -/
theorem insertMarks_nested (mode : Mode) (text : String) :
    ∃ blocks, Nested (insertMarks mode (Token.ofText text)) blocks := by
  obtain ⟨front, stop, heq, hfront⟩ := Token.scan_ends 0 text.toList
  have hwide : ∀ token ∈ front, token.kind ≠ .eof ∧ token.isVirtual = false := by
    intro token htoken
    have hmem : token ∈ Token.scan 0 text.toList := heq ▸ List.mem_append_left _ htoken
    exact ⟨hfront token htoken, Token.scan_wide hmem (hfront token htoken)⟩
  unfold insertMarks Token.ofText
  rw [heq]
  exact run_nested hwide stop (start mode) Stands.nil

end Layout

end LosslessTree
