import LosslessTree.Token.Basic
import LosslessTree.Token.KindSet

/-!
What may come next: kinds of tokens, and identifiers with a fixed text. The words keep the order
in which they were added, which is the order in which messages list them.
-/

namespace LosslessTree

structure Lookahead where
  kinds : KindSet
  words : List String
  deriving DecidableEq

namespace Lookahead

def empty : Lookahead := ⟨.empty, []⟩

instance : Inhabited Lookahead := ⟨empty⟩

def ofKinds (kinds : KindSet) : Lookahead := ⟨kinds, []⟩

def ofKind (kind : TokenKind) : Lookahead := ofKinds (.single kind)

def ofWord (word : String) : Lookahead := ⟨.empty, [word]⟩

def isEmpty (set : Lookahead) : Bool := set.kinds.isEmpty && set.words.isEmpty

def addWord (words : List String) (word : String) : List String :=
  if words.contains word then words else words ++ [word]

def union (left right : Lookahead) : Lookahead :=
  ⟨left.kinds.union right.kinds, right.words.foldl addWord left.words⟩

/-- Whether a token of a kind and text may come next. Only an identifier counts as a word. -/
def admits (set : Lookahead) (token : Token) : Bool :=
  set.kinds.contains token.kind || (token.kind == .varId && set.words.contains token.text)

/-- What an error node displays: the members, or that there are none. -/
def describe (set : Lookahead) : String :=
  let names := set.kinds.toList.map TokenKind.describe
    ++ set.words.map fun word => "'" ++ word ++ "'"
  match names with
  | [] => "nothing"
  | [name] => name
  | name :: names =>
    "one of " ++ ", ".intercalate (name :: names.dropLast) ++ " or " ++ names.getLastD ""

theorem mem_addWord {words : List String} {word other : String} :
    other ∈ addWord words word ↔ other ∈ words ∨ other = word := by
  unfold addWord
  split
  · next hmem =>
      constructor
      · exact Or.inl
      · rintro (hother | rfl)
        · exact hother
        · simpa using hmem
  · simp

theorem mem_foldl_addWord {more words : List String} {word : String} :
    word ∈ more.foldl addWord words ↔ word ∈ words ∨ word ∈ more := by
  induction more generalizing words with
  | nil => simp
  | cons head tail ih =>
      rw [List.foldl_cons, ih, mem_addWord, List.mem_cons, or_assoc]

theorem mem_words_union {left right : Lookahead} {word : String} :
    word ∈ (left.union right).words ↔ word ∈ left.words ∨ word ∈ right.words :=
  mem_foldl_addWord

@[simp] theorem admits_union (left right : Lookahead) (token : Token) :
    (left.union right).admits token = (left.admits token || right.admits token) := by
  have hwords : (left.union right).words.contains token.text =
      (left.words.contains token.text || right.words.contains token.text) := by
    rw [Bool.eq_iff_iff]
    simp [mem_words_union]
  have hkinds : (left.union right).kinds = left.kinds.union right.kinds := rfl
  simp only [admits, hkinds, KindSet.contains_union, hwords]
  cases token.kind == .varId <;> simp [Bool.or_assoc, Bool.or_comm, Bool.or_left_comm]

@[simp] theorem admits_ofKind (kind : TokenKind) (token : Token) :
    (ofKind kind).admits token = decide (kind = token.kind) := by
  simp [admits, ofKind, ofKinds]

@[simp] theorem admits_empty (token : Token) : empty.admits token = false := by
  simp [admits, empty]

end Lookahead

end LosslessTree
