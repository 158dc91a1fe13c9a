import LosslessTree.Proofs.Words.Stream
import LosslessTree.Proofs.Text.Apart

/-!
What a stream keeps of its tokens: all those before the end of the text, in their order. Where the
tokens are in the order of the text and apart, so are those between two positions of the stream,
and they lie between the offsets of the two positions.
-/

namespace LosslessTree

def Token.Ordered (tokens : List Token) : Prop :=
  tokens.Pairwise fun earlier later => earlier.span.stop ≤ later.span.start

namespace Span.Apart

variable {low : Nat}

theorem of_ordered {tokens rest : List Token} {next : Token}
    (hordered : Token.Ordered (tokens ++ next :: rest))
    (hlow : ∀ token ∈ (tokens ++ next :: rest).head?, low ≤ token.span.start) :
    Apart low (tokens.map (·.span)) next.span.start := by
  induction tokens generalizing low with
  | nil => exact hlow next rfl
  | cons token tokens ih =>
      obtain ⟨hbefore, hordered⟩ := List.pairwise_cons.mp hordered
      refine ⟨hlow token rfl, ih hordered ?_⟩
      intro other hother
      exact hbefore other (List.mem_of_head? hother)

end Span.Apart

def Word.tokens (word : Word) : List Token := word.token :: word.trivia

namespace Stream

theorem group_tokens (tokens : List Token) :
    (group tokens).1 ++ (group tokens).2.flatMap Word.tokens = tokens := by
  induction tokens with
  | nil => rfl
  | cons token rest ih =>
      unfold group
      dsimp only
      split
      · rw [List.cons_append, ih]
      · rw [List.nil_append, List.flatMap_cons, Word.tokens, List.cons_append, ih]

theorem group_significant (tokens : List Token) {word : Word} (hword : word ∈ (group tokens).2) :
    word.token ∈ tokens ∧ word.token.isTrivia = false := by
  induction tokens with
  | nil => cases hword
  | cons token rest ih =>
      unfold group at hword
      dsimp only at hword
      split at hword
      · exact (ih hword).imp_left (List.mem_cons_of_mem _)
      · next htrivia =>
          rcases List.mem_cons.mp hword with rfl | hmem
          · exact ⟨List.mem_cons_self, by simpa using htrivia⟩
          · exact (ih hmem).imp_left (List.mem_cons_of_mem _)

theorem group_trivia (tokens : List Token) :
    (∀ token ∈ (group tokens).1, token.isTrivia = true) ∧
      ∀ word ∈ (group tokens).2, ∀ token ∈ word.trivia, token.isTrivia = true := by
  induction tokens with
  | nil => simp [group]
  | cons token rest ih =>
      obtain ⟨hleading, hwords⟩ := ih
      unfold group
      dsimp only
      split
      · next htrivia => exact ⟨List.forall_mem_cons.mpr ⟨htrivia, hleading⟩, hwords⟩
      · exact ⟨by simp, List.forall_mem_cons.mpr ⟨hleading, hwords⟩⟩

variable (stream : Stream)

def between (start stop : Nat) : List Token :=
  (stream.words.extract start stop).toList.flatMap Word.tokens

variable {stream}

@[simp] theorem between_self (position : Nat) : stream.between position position = [] := by
  simp [between]

theorem between_append {start middle stop : Nat} (hstart : start ≤ middle) (hstop : middle ≤ stop) :
    stream.between start middle ++ stream.between middle stop = stream.between start stop := by
  simp only [between, ← List.flatMap_append, ← Array.toList_append]
  rw [Array.extract_append_extract, Nat.min_eq_left hstart, Nat.max_eq_right hstop]

theorem between_succ {position : Nat} {word : Word} (hword : stream.words[position]? = some word) :
    stream.between position (position + 1) = word.tokens := by
  obtain ⟨hlt, hget⟩ := Array.getElem?_eq_some_iff.mp hword
  simp [between, Array.toList_extract, List.extract, List.drop_eq_getElem_cons, hlt, hget]

theorem between_all : stream.between 0 stream.size = stream.words.toList.flatMap Word.tokens := by
  simp [between, size]

theorem tokenAt_eq {position : Nat} {word : Word}
    (hword : stream.words[position]? = some word) : stream.tokenAt position = word.token := by
  rw [tokenAt, hword]

theorem tokenAt_size : stream.tokenAt stream.size = stream.final := by
  simp [tokenAt, size]

theorem between_size_append {position : Nat} (hposition : position ≤ stream.size) :
    ∃ rest, stream.between position stream.size ++ [stream.final] =
      stream.tokenAt position :: rest := by
  rcases Nat.lt_or_eq_of_le hposition with hlt | rfl
  · have hword := Array.getElem?_eq_getElem hlt
    rw [← between_append (Nat.le_succ position) hlt, between_succ hword, tokenAt_eq hword]
    exact ⟨_, rfl⟩
  · rw [between_self, tokenAt_size]
    exact ⟨[], rfl⟩

/-- Everything before the end of the text is in order, and so is that end. -/
def Ordered (stream : Stream) : Prop :=
  Token.Ordered (stream.leading ++ stream.between 0 stream.size ++ [stream.final])

def Significant (stream : Stream) : Prop :=
  ∀ position < stream.size, (stream.tokenAt position).kind ≠ .eof

/-- Blanks and comments stand behind the tokens of words and in front, and nowhere else. -/
structure Grouped (stream : Stream) : Prop where
  leading : ∀ token ∈ stream.leading, token.isTrivia = true
  token : ∀ word ∈ stream.words, word.token.isTrivia = false
  trivia : ∀ word ∈ stream.words, ∀ token ∈ word.trivia, token.isTrivia = true

theorem Ordered.from_position (hordered : stream.Ordered) {position : Nat}
    (hposition : position ≤ stream.size) :
    Token.Ordered (stream.between position stream.size ++ [stream.final]) := by
  rw [Ordered, ← between_append (Nat.zero_le position) hposition, List.append_assoc,
    List.append_assoc] at hordered
  exact (List.pairwise_append.mp (List.pairwise_append.mp hordered).2.1).2.1

theorem Ordered.between_apart (hordered : stream.Ordered) {start stop : Nat}
    (hstart : start ≤ stop) (hstop : stop ≤ stream.size) :
    Span.Apart (stream.offsetAt start) ((stream.between start stop).map (·.span))
      (stream.offsetAt stop) := by
  obtain ⟨rest, hrest⟩ := between_size_append hstop
  obtain ⟨others, hothers⟩ := between_size_append (Nat.le_trans hstart hstop)
  have htokens : stream.between start stop ++ stream.tokenAt stop :: rest =
      stream.tokenAt start :: others := by
    rw [← hrest, ← hothers, ← List.append_assoc, between_append hstart hstop]
  refine @Span.Apart.of_ordered _ _ rest _ ?_ ?_
  · rw [htokens, ← hothers]
    exact hordered.from_position (Nat.le_trans hstart hstop)
  · intro token htoken
    rw [htokens] at htoken
    obtain rfl : stream.tokenAt start = token := Option.some.inj htoken
    exact Nat.le_refl _

theorem Ordered.leading_apart (hordered : stream.Ordered) :
    Span.Apart stream.start (stream.leading.map (·.span)) (stream.offsetAt 0) := by
  obtain ⟨rest, hrest⟩ := between_size_append (Nat.zero_le stream.size)
  rw [Ordered, List.append_assoc, hrest] at hordered
  apply Span.Apart.of_ordered hordered
  intro token htoken
  unfold start
  cases hleading : stream.leading with
  | nil =>
      rw [hleading] at htoken
      obtain rfl : stream.tokenAt 0 = token := Option.some.inj htoken
      exact Nat.le_refl _
  | cons first others =>
      rw [hleading] at htoken
      obtain rfl : first = token := Option.some.inj htoken
      exact Nat.le_refl _

/-! ## Streams of tokens -/

variable (tokens : List Token)

theorem ofTokens_tokens : (ofTokens tokens).leading ++
    (ofTokens tokens).between 0 (ofTokens tokens).size =
      tokens.takeWhile (·.kind != .eof) := by
  rw [between_all]
  exact group_tokens _

theorem final_ofTokens : (ofTokens tokens).final.kind = .eof := by
  change (Tape.finalOf tokens).kind = .eof
  unfold Tape.finalOf
  split
  · next heq => simpa using List.find?_some heq
  · rfl

theorem significant_ofTokens : (ofTokens tokens).Significant := by
  intro position hposition
  have hword := Array.getElem?_eq_getElem hposition
  have hmem : (ofTokens tokens).words[position] ∈ (ofTokens tokens).words :=
    Array.getElem_mem hposition
  obtain ⟨htoken, -⟩ := group_significant (tokens.takeWhile (·.kind != .eof))
    (List.mem_toArray.mp hmem)
  rw [tokenAt_eq hword]
  simpa using List.all_eq_true.mp List.all_takeWhile _ htoken

theorem grouped_ofTokens : (ofTokens tokens).Grouped := by
  obtain ⟨hleading, htrivia⟩ := group_trivia (tokens.takeWhile (·.kind != .eof))
  refine ⟨hleading, fun word hword => ?_, fun word hword => ?_⟩
  · exact (group_significant _ (List.mem_toArray.mp hword)).2
  · exact htrivia word (List.mem_toArray.mp hword)

theorem stop_le_last {tokens : List Token} (hordered : Token.Ordered tokens) {token : Token}
    (htoken : token ∈ tokens) :
    token.span.stop ≤ (tokens.getLast?.map (·.span.stop)).getD 0 := by
  induction tokens generalizing token with
  | nil => cases htoken
  | cons first rest ih =>
      obtain ⟨hfirst, hrest⟩ := List.pairwise_cons.mp hordered
      cases rest with
      | nil => rw [List.mem_singleton.mp htoken]; exact Nat.le_refl _
      | cons second rest =>
          rw [List.getLast?_cons_cons]
          rcases List.mem_cons.mp htoken with rfl | hmem
          · have hsecond := hfirst second List.mem_cons_self
            exact Nat.le_trans (Nat.le_trans hsecond second.span.start_le_stop)
              (ih hrest List.mem_cons_self)
          · exact ih hrest hmem

/-- The end of the text keeps the order, whether it is among the tokens or put after them. -/
theorem ordered_ofTokens {tokens : List Token} (hordered : Token.Ordered tokens) :
    (ofTokens tokens).Ordered := by
  rw [Ordered, ofTokens_tokens]
  change Token.Ordered (_ ++ [Tape.finalOf tokens])
  unfold Tape.finalOf
  split
  · next final hfind =>
      obtain ⟨hfinal, before, after, rfl, hbefore⟩ := List.find?_eq_some_iff_append.mp hfind
      have htake : (before ++ final :: after).takeWhile (·.kind != .eof) = before := by
        rw [List.takeWhile_append_of_pos (by simpa using hbefore)]
        simp [of_decide_eq_true hfinal]
      rw [htake]
      exact hordered.sublist
        (List.Sublist.append_left (List.singleton_sublist.mpr List.mem_cons_self) before)
  · next hfind =>
      have htake : tokens.takeWhile (·.kind != .eof) = tokens := by
        have hall : ∀ token ∈ tokens, (token.kind != .eof) = true := by
          simpa using List.find?_eq_none.mp hfind
        simpa using @List.takeWhile_append_of_pos _ _ tokens [] hall
      rw [htake]
      refine List.pairwise_append.mpr ⟨hordered, List.pairwise_singleton _ _, ?_⟩
      intro token htoken final hfinal
      obtain rfl := List.mem_singleton.mp hfinal
      exact stop_le_last hordered htoken

end Stream

end LosslessTree
