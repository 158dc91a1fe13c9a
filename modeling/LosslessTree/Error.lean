import LosslessTree.Grammar.Rule
import LosslessTree.Text.Span

/-!
What can be wrong with the use of the library. Problems of the text that is parsed are not errors;
they are part of the result.
-/

namespace LosslessTree

inductive SettingsFault where
  /-- The text is not JSON, or a value has the wrong type. -/
  | unreadable
  | limitValue
  | layoutValue
  | limitTooSmall
  deriving DecidableEq, Repr

def SettingsFault.message? : SettingsFault → Option String
  | unreadable => none
  | limitValue => some "invalid value of backtrackLimit"
  | layoutValue => some "invalid value of layout"
  | limitTooSmall => some "backtrackLimit must be at least 1"

inductive Fault where
  | outside (kind : NodeKind) (span : Span) (child : NodeKind) (childSpan : Span)
  | overlap (child : NodeKind) (childSpan : Span) (kind : NodeKind)
  | taken (child : NodeKind)
  | rootTaken
  /-- A range would end before it starts. -/
  | reversed
  | noNode
  | noToken
  deriving DecidableEq

def Fault.message? : Fault → Option String
  | outside kind span child childSpan =>
    some (kind.name ++ " at " ++ span.render ++ " does not contain child " ++ child.name
      ++ " at " ++ childSpan.render)
  | overlap child childSpan kind =>
    some ("child " ++ child.name ++ " at " ++ childSpan.render
      ++ " overlaps its previous sibling in " ++ kind.name)
  | taken child => some (child.name ++ " already has a parent")
  | rootTaken => some "root node has a parent"
  | reversed | noNode | noToken => none

inductive Error where
  | unknownKind (kind : NodeKind)
  | duplicateRule (kind : NodeKind)
  /-- A node that must have exactly one child of a kind, or at most one, and has another number. -/
  | childCount (kind child : NodeKind) (span : Span) (found : Nat)
  /-- Children asked for with a multiplicity that the rule does not give them. -/
  | wrongAccessor (kind child : NodeKind) (requested : Grammar.Multiplicity)
    (actual : Option Grammar.Multiplicity)
  | settings (fault : SettingsFault)
  | tree (fault : Fault)
  deriving DecidableEq

def Error.message? : Error → Option String
  | unknownKind kind => some ("no grammar rule for " ++ kind.name)
  | duplicateRule kind => some ("grammar rule for " ++ kind.name ++ " registered twice")
  | childCount kind child span found =>
    some (kind.name ++ "@" ++ span.render ++ " must have exactly one " ++ child.name
      ++ " child, found " ++ toString found)
  | wrongAccessor kind child requested _ =>
    some (kind.name ++ " has no " ++ requested.describe ++ " accessor for " ++ child.name)
  | settings fault => fault.message?.map ("invalid configuration: " ++ ·)
  | tree fault => fault.message?

end LosslessTree
