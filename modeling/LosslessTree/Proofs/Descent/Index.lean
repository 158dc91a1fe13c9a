import LosslessTree.Proofs.Parse.Stream

/-!
Where words stand among all tokens. Indices count blanks and comments, positions do not; between the
tokens of two words there are only blanks. So what a parser looks for by indices it finds at the
tokens of words, and indices of words are ordered as their positions are.
-/

namespace LosslessTree

namespace Stream

/-- The index of a word among all tokens; that of the end behind the last word. -/
def indexOf (stream : Stream) (position : Nat) : Nat :=
  (stream.leading ++ stream.between 0 position).length

variable {stream : Stream} {position other : Nat}

theorem indexOf_add (hle : position ≤ other) :
    stream.indexOf other = stream.indexOf position + (stream.between position other).length := by
  simp only [indexOf, List.length_append, ← between_append (Nat.zero_le position) hle]
  omega

theorem indexOf_le (hle : position ≤ other) : stream.indexOf position ≤ stream.indexOf other :=
  Nat.le.intro (indexOf_add hle).symm

theorem indexOf_succ {word : Word} (hword : stream.words[position]? = some word) :
    stream.indexOf (position + 1) = stream.indexOf position + word.trivia.length + 1 := by
  rw [indexOf_add (Nat.le_succ position), between_succ hword, Word.tokens, List.length_cons]
  rfl

theorem indexOf_lt_succ (hposition : position < stream.size) :
    stream.indexOf position < stream.indexOf (position + 1) := by
  rw [indexOf_succ (Array.getElem?_eq_getElem hposition)]
  omega

theorem indexOf_lt (hlt : position < other) (hother : other ≤ stream.size) :
    stream.indexOf position < stream.indexOf other :=
  Nat.lt_of_lt_of_le (indexOf_lt_succ (Nat.lt_of_lt_of_le hlt hother)) (indexOf_le hlt)

theorem indexOf_add_le {gap : Nat} (hgap : position + gap ≤ stream.size) :
    stream.indexOf position + gap ≤ stream.indexOf (position + gap) := by
  induction gap with
  | zero => exact Nat.le_refl _
  | succ gap ih => exact Nat.lt_of_le_of_lt (ih (Nat.le_of_succ_le hgap)) (indexOf_lt_succ hgap)

theorem indexOf_lt_iff (hother : other ≤ stream.size) :
    stream.indexOf position < stream.indexOf other ↔ position < other := by
  refine ⟨fun hlt => ?_, fun hlt => indexOf_lt hlt hother⟩
  exact Nat.lt_of_not_le fun hle => Nat.not_le_of_lt hlt (indexOf_le hle)

theorem indexOf_le_iff (hposition : position ≤ stream.size) :
    stream.indexOf position ≤ stream.indexOf other ↔ position ≤ other := by
  rw [← Nat.not_lt, indexOf_lt_iff hposition, Nat.not_lt]

theorem indexOf_inj (hposition : position ≤ stream.size) (hother : other ≤ stream.size) :
    stream.indexOf position = stream.indexOf other ↔ position = other := by
  rw [Nat.eq_iff_le_and_ge, Nat.eq_iff_le_and_ge, indexOf_le_iff hposition, indexOf_le_iff hother]

theorem indexOf_min (position other : Nat) :
    stream.indexOf (min position other) =
      min (stream.indexOf position) (stream.indexOf other) := by
  rcases Nat.le_total position other with hle | hle
  · rw [Nat.min_eq_left hle, Nat.min_eq_left (indexOf_le hle)]
  · rw [Nat.min_eq_right hle, Nat.min_eq_right (indexOf_le hle)]

end Stream

namespace Tape

def words (tape : Tape) : Stream :=
  let (leading, words) := Stream.group tape.tokens.toList
  ⟨leading, words.toArray, tape.final⟩

variable {tape : Tape} {position index stop room : Nat}

theorem tokens_words :
    tape.words.leading ++ tape.words.between 0 tape.words.size = tape.tokens.toList := by
  rw [Stream.between_all]
  exact Stream.group_tokens _

theorem grouped_words : tape.words.Grouped := by
  obtain ⟨hleading, htrivia⟩ := Stream.group_trivia tape.tokens.toList
  refine ⟨hleading, fun word hword => ?_, fun word hword => ?_⟩
  · exact (Stream.group_significant _ (List.mem_toArray.mp hword)).2
  · exact htrivia word (List.mem_toArray.mp hword)

theorem indexOf_size : tape.words.indexOf tape.words.size = tape.size := by
  rw [Stream.indexOf, tokens_words]
  rfl

theorem indexOf_le_size (position : Nat) : tape.words.indexOf position ≤ tape.size := by
  rw [← indexOf_size]
  rcases Nat.le_total position tape.words.size with hle | hge
  · exact Stream.indexOf_le hle
  · rw [Stream.indexOf_add hge, ← Nat.add_zero (tape.words.indexOf tape.words.size)]
    simp [Stream.between, Stream.size]

/-- The tokens between two words stand at their indices. -/
theorem between_isPrefix (hle : position ≤ stop) (hstop : stop ≤ tape.words.size) :
    tape.words.between position stop <+: tape.tokens.toList.drop (tape.words.indexOf position) := by
  refine ⟨tape.words.between stop tape.words.size, ?_⟩
  rw [Stream.between_append hle hstop, ← tokens_words,
    ← Stream.between_append (Nat.zero_le position) (Nat.le_trans hle hstop), ← List.append_assoc,
    Stream.indexOf, List.drop_left]

theorem tokenAt_eq {token : Token} (htoken : tape.tokens[index]? = some token) :
    tape.tokenAt index = token := by
  rw [tokenAt, htoken]

theorem tokenAt_of_isPrefix {tokens : List Token}
    (hfront : tokens <+: tape.tokens.toList.drop index) {place : Nat} {token : Token}
    (htoken : tokens[place]? = some token) :
    tape.tokenAt (index + place) = token := by
  obtain ⟨rest, hrest⟩ := hfront
  apply tokenAt_eq
  rw [← Array.getElem?_toList, ← List.getElem?_drop, ← hrest,
    List.getElem?_append_left (List.getElem?_eq_some_iff.mp htoken).1]
  exact htoken

theorem tokenAt_of_cons {token : Token} {rest : List Token}
    (hfront : token :: rest <+: tape.tokens.toList.drop index) : tape.tokenAt index = token := by
  have hfirst : (token :: rest)[0]? = some token := rfl
  have htoken := tokenAt_of_isPrefix hfront hfirst
  exact htoken

theorem word_isPrefix {word : Word} (hword : tape.words.words[position]? = some word) :
    word.tokens <+: tape.tokens.toList.drop (tape.words.indexOf position) := by
  have hlt : position < tape.words.size := (Array.getElem?_eq_some_iff.mp hword).1
  rw [← Stream.between_succ hword]
  exact between_isPrefix (Nat.le_succ position) hlt

theorem tokenAt_indexOf (position : Nat) :
    tape.tokenAt (tape.words.indexOf position) = tape.words.tokenAt position := by
  cases hword : tape.words.words[position]? with
  | some word =>
      rw [Stream.tokenAt_eq hword]
      exact tokenAt_of_cons (word_isPrefix hword)
  | none =>
      have hbeyond : tape.size ≤ tape.words.indexOf position := by
        rw [← indexOf_size]
        exact Stream.indexOf_le (Array.getElem?_eq_none_iff.mp hword)
      rw [tokenAt, Stream.tokenAt, hword, Array.getElem?_eq_none hbeyond]
      rfl

theorem offsetAt_indexOf (position : Nat) :
    tape.offsetAt (tape.words.indexOf position) = tape.words.offsetAt position := by
  rw [offsetAt, tokenAt_indexOf, Stream.offsetAt]

theorem not_isTrivia_indexOf (hposition : position < tape.words.size) :
    (tape.tokenAt (tape.words.indexOf position)).isTrivia = false := by
  have hword := Array.getElem?_eq_getElem hposition
  rw [tokenAt_indexOf, Stream.tokenAt_eq hword]
  exact grouped_words.token _ (Array.getElem_mem hposition)

def Blank (tape : Tape) (start stop : Nat) : Prop :=
  ∀ index, start ≤ index → index < stop → (tape.tokenAt index).isTrivia = true

theorem Blank.tail (hblank : tape.Blank index stop) : tape.Blank (index + 1) stop :=
  fun _ hle => hblank _ (Nat.le_of_succ_le hle)

theorem blank_of_isPrefix {tokens : List Token} (hfront : tokens <+: tape.tokens.toList.drop index)
    (htokens : ∀ token ∈ tokens, token.isTrivia = true) :
    tape.Blank index (index + tokens.length) := by
  intro later hstart hstop
  obtain ⟨place, rfl⟩ := Nat.exists_eq_add_of_le hstart
  have hplace : place < tokens.length := by omega
  rw [tokenAt_of_isPrefix hfront (List.getElem?_eq_getElem hplace)]
  exact htokens _ (List.getElem_mem hplace)

theorem leading_isPrefix : tape.words.leading <+: tape.tokens.toList.drop 0 := by
  rw [List.drop_zero, ← tokens_words]
  exact List.prefix_append _ _

theorem indexOf_zero : tape.words.indexOf 0 = tape.words.leading.length := by
  simp [Stream.indexOf]

theorem blank_leading : tape.Blank 0 (tape.words.indexOf 0) := by
  rw [indexOf_zero, ← Nat.zero_add tape.words.leading.length]
  exact blank_of_isPrefix leading_isPrefix grouped_words.leading

theorem blank_behind (hposition : position < tape.words.size) :
    tape.Blank (tape.words.indexOf position + 1) (tape.words.indexOf (position + 1)) := by
  have hword := Array.getElem?_eq_getElem hposition
  obtain ⟨rest, hrest⟩ := word_isPrefix hword
  have hfront : tape.words.words[position].trivia <+:
      tape.tokens.toList.drop (tape.words.indexOf position + 1) := by
    rw [← List.drop_drop, ← hrest]
    exact List.prefix_append _ _
  have htrivia := grouped_words.trivia _ (Array.getElem_mem hposition)
  rw [Stream.indexOf_succ hword, Nat.add_right_comm]
  exact blank_of_isPrefix hfront htrivia

/-- A significant token stands there, or the end of the tokens. -/
structure Solid (tape : Tape) (index : Nat) : Prop where
  le_size : index ≤ tape.size
  significant : index < tape.size → (tape.tokenAt index).isTrivia = false

theorem solid_indexOf (position : Nat) : tape.Solid (tape.words.indexOf position) where
  le_size := indexOf_le_size position
  significant hlt := by
    rw [← indexOf_size, Stream.indexOf_lt_iff (Nat.le_refl _)] at hlt
    exact not_isTrivia_indexOf hlt

theorem Solid.le_of_blank {start : Nat} (hsolid : tape.Solid index)
    (hblank : tape.Blank start stop) (hstop : stop ≤ tape.size) (hstart : start ≤ index) :
    stop ≤ index := by
  refine Nat.le_of_not_lt fun hlt => ?_
  have htrivia := hblank index hstart hlt
  rw [hsolid.significant (Nat.lt_of_lt_of_le hlt hstop)] at htrivia
  cases htrivia

/-! ## What is found by indices -/

theorem nextFrom_eq (hblank : tape.Blank index stop) (hle : index ≤ stop)
    (hstop : tape.Solid stop) : tape.nextFrom index = stop := by
  fun_induction tape.nextFrom index with
  | case1 index hlt htrivia ih =>
      refine ih hblank.tail (Nat.lt_of_le_of_ne hle fun heq => ?_)
      rw [heq] at hlt htrivia
      rw [hstop.significant hlt] at htrivia
      cases htrivia
  | case2 index hlt htrivia =>
      refine Nat.le_antisymm hle (Nat.le_of_not_lt fun hbefore => htrivia ?_)
      exact hblank index (Nat.le_refl index) hbefore
  | case3 index hge => exact Nat.le_antisymm (Nat.le_trans (Nat.le_of_not_lt hge) hle) hstop.le_size

/-- The next word is found behind the blanks of the one before. -/
theorem nextFrom_indexOf (hposition : position < tape.words.size) :
    tape.nextFrom (tape.words.indexOf position + 1) = tape.words.indexOf (position + 1) :=
  nextFrom_eq (blank_behind hposition) (Stream.indexOf_lt_succ hposition) (solid_indexOf _)

theorem windowEnd_of_blank (hblank : tape.Blank index stop) (hle : index ≤ stop)
    (hstop : stop ≤ tape.size) : tape.windowEnd room index = tape.windowEnd room stop := by
  obtain ⟨gap, rfl⟩ := Nat.exists_eq_add_of_le hle
  clear hle
  induction gap generalizing index with
  | zero => rfl
  | succ gap ih =>
      have hnext : index + (gap + 1) = index + 1 + gap := by omega
      have htrivia := hblank index (Nat.le_refl index) (by omega)
      rw [windowEnd.eq_def, if_pos (by omega), if_pos htrivia, hnext]
      rw [hnext] at hblank hstop
      exact ih hblank.tail hstop

/-- A window of so many significant tokens ends at a word. -/
theorem windowEnd_indexOf (hposition : position ≤ tape.words.size) :
    tape.windowEnd room (tape.words.indexOf position) =
      tape.words.indexOf (min (position + room) tape.words.size) := by
  induction room generalizing position with
  | zero =>
      rw [Nat.add_zero, Nat.min_eq_left hposition, windowEnd]
      split
      · next hlt =>
          rw [(solid_indexOf _).significant hlt]
          rfl
      · next hge => exact Nat.le_antisymm (Nat.le_of_not_lt hge) (indexOf_le_size position)
  | succ room ih =>
      rcases Nat.lt_or_eq_of_le hposition with hlt | rfl
      · have hindex : tape.words.indexOf position < tape.size := by
          rwa [← indexOf_size, Stream.indexOf_lt_iff (Nat.le_refl _)]
        rw [windowEnd, if_pos hindex, not_isTrivia_indexOf hlt]
        simp only [Bool.false_eq_true, if_false]
        rw [windowEnd_of_blank (blank_behind hlt) (Stream.indexOf_lt_succ hlt) (indexOf_le_size _),
          ih hlt, Nat.succ_add, Nat.add_succ]
      · rw [indexOf_size, windowEnd, if_neg (Nat.lt_irrefl _), ← indexOf_size]
        congr 1
        omega

end Tape

end LosslessTree
