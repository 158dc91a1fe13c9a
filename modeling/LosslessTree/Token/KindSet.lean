import LosslessTree.Token.Kind

/-!
Sets of token kinds, one bit per kind. `contains_*` says what each operation does to membership,
and `ext` that a set is its members.
-/

namespace LosslessTree

structure KindSet where
  bits : BitVec 58
  deriving DecidableEq

namespace KindSet

def empty : KindSet := ⟨0#58⟩

def contains (set : KindSet) (kind : TokenKind) : Bool := set.bits.getLsbD kind.index

def single (kind : TokenKind) : KindSet := ⟨BitVec.twoPow 58 kind.index⟩

def union (left right : KindSet) : KindSet := ⟨left.bits ||| right.bits⟩

def insert (set : KindSet) (kind : TokenKind) : KindSet := set.union (single kind)

def ofList (kinds : List TokenKind) : KindSet := kinds.foldl insert empty

def toList (set : KindSet) : List TokenKind := TokenKind.all.filter set.contains

def isEmpty (set : KindSet) : Bool := set == empty

def full : KindSet := ofList TokenKind.all

def render (set : KindSet) : String :=
  "\x7b" ++ ", ".intercalate (set.toList.map TokenKind.name) ++ "\x7d"

instance : Inhabited KindSet := ⟨empty⟩

@[simp] theorem contains_empty (kind : TokenKind) : empty.contains kind = false := by
  simp [contains, empty]

@[simp] theorem contains_single (kind other : TokenKind) :
    (single kind).contains other = decide (kind = other) := by
  simp only [contains, single, BitVec.getLsbD_twoPow, kind.index_lt, decide_true, Bool.true_and]
  exact decide_eq_decide.mpr ⟨TokenKind.index_injective, congrArg _⟩

@[simp] theorem contains_union (left right : KindSet) (kind : TokenKind) :
    (left.union right).contains kind = (left.contains kind || right.contains kind) := by
  simp [contains, union]

@[simp] theorem contains_insert (set : KindSet) (kind other : TokenKind) :
    (set.insert kind).contains other = (set.contains other || decide (kind = other)) := by
  simp [insert]

theorem contains_foldl_insert (kinds : List TokenKind) (set : KindSet) (kind : TokenKind) :
    (kinds.foldl insert set).contains kind = (set.contains kind || decide (kind ∈ kinds)) := by
  induction kinds generalizing set with
  | nil => simp
  | cons head tail ih =>
      rw [List.foldl_cons, ih, contains_insert]
      by_cases heq : head = kind
      · simp [heq]
      · simp [heq, Ne.symm heq]

@[simp] theorem contains_ofList (kinds : List TokenKind) (kind : TokenKind) :
    (ofList kinds).contains kind = decide (kind ∈ kinds) := by
  simp [ofList, contains_foldl_insert]

@[simp] theorem contains_full (kind : TokenKind) : full.contains kind = true := by
  simp [full, TokenKind.mem_all]

@[simp] theorem mem_toList {set : KindSet} {kind : TokenKind} :
    kind ∈ set.toList ↔ set.contains kind = true := by
  simp [toList, TokenKind.mem_all]

theorem ext_contains {left right : KindSet}
    (hcontains : ∀ kind, left.contains kind = right.contains kind) : left = right := by
  obtain ⟨leftBits⟩ := left
  obtain ⟨rightBits⟩ := right
  congr 1
  apply BitVec.eq_of_getLsbD_eq
  intro i hi
  have hindex : (TokenKind.ofNat i).index = i := by
    have hlt : i < TokenKind.all.length := hi
    have hall : ∀ j < 58, (TokenKind.ofNat j).index = j := by decide
    exact hall i hlt
  have := hcontains (TokenKind.ofNat i)
  simpa [contains, hindex] using this

end KindSet

end LosslessTree
