import LosslessTree.Error
import LosslessTree.Json.Reader
import LosslessTree.Layout.Blocks

/-!
Settings of a parse. They are read as a whole from a JSON text, or changed by the members of a JSON
value; either way nothing changes unless everything is in order. A change gives new settings or is
made in place.
-/

namespace LosslessTree

structure Settings where
  /-- How many tokens an alternative may be tried on. -/
  backtrackLimit : Nat
  layout : Layout.Mode
  deriving DecidableEq, Repr

namespace Settings

def default : Settings := ⟨32, .module⟩

instance : Inhabited Settings := ⟨default⟩

def layoutName : Layout.Mode → String
  | .module => "module"
  | .block => "block"
  | .none => "none"

def layoutOfName? : String → Option Layout.Mode
  | "module" => some .module
  | "block" => some .block
  | "none" => some .none
  | _ => none

/-- A limit is a whole number that fits in 64 bits. -/
def limit? (value : Json) : Option Nat :=
  value.nat?.filter (· < UInt64.size)

/-- A layout is named by a text, or by the only member of an object, which is null. -/
def layout? : Json → Option Layout.Mode
  | .string (some name) => layoutOfName? name
  | .object [(some name, .null)] => layoutOfName? name
  | _ => none

def validate (settings : Settings) : Except SettingsFault Settings :=
  if settings.backtrackLimit = 0 then .error .limitTooSmall else .ok settings

def valuesOf (key : String) (members : List (Option String × Json)) : List Json :=
  (members.filter (·.1 == some key)).map (·.2)

/-- Reads the values that there may be for a setting: none keeps the setting, and two are
too many. -/
def readOnce (read : Json → Option α) (unset : α) : List Json → Option α
  | [] => some unset
  | [value] => read value
  | _ => none

/-- Reads an object with known and unknown members, or the settings in order in an array. -/
def ofJson? : Json → Option Settings
  | .object members =>
    if members.all (·.1.isSome) then do
      let limit ← readOnce limit? default.backtrackLimit (valuesOf "backtrackLimit" members)
      let layout ← readOnce layout? default.layout (valuesOf "layout" members)
      pure ⟨limit, layout⟩
    else none
  | .array values =>
    match values with
    | [] => some default
    | [limit] => (limit? limit).map (⟨·, default.layout⟩)
    | [limit, layout] => do pure ⟨← limit? limit, ← layout? layout⟩
    | _ => none
  | _ => none

def ofText (text : String) : Except SettingsFault Settings :=
  match (Json.ofText? text).bind ofJson? with
  | some settings => settings.validate
  | none => .error .unreadable

def updated (read : Json → Option α) (fault : SettingsFault) (unset : α) :
    Option Json → Except SettingsFault α
  | none => .ok unset
  | some value =>
    match read value with
    | some value => .ok value
    | none => .error fault

/-- The settings changed by the members of a value; other values than objects change nothing. Of
members with one key only the last counts. -/
def update (settings : Settings) (value : Json) : Except SettingsFault Settings := do
  let backtrackLimit ← updated limit? .limitValue settings.backtrackLimit
    (value.member? "backtrackLimit")
  let layout ← updated (layout? ·.merged) .layoutValue settings.layout (value.member? "layout")
  validate ⟨backtrackLimit, layout⟩

def commit (copy : Settings) : EStateM SettingsFault Settings Unit := do
  if copy.backtrackLimit = 0 then throw .limitTooSmall
  set copy

/-- Changes the settings in place, by way of a copy to which the members are written one by one. -/
def change (value : Json) : EStateM SettingsFault Settings Unit := do
  let mut copy ← get
  if let some limit := value.member? "backtrackLimit" then
    let some limit := limit? limit | throw .limitValue
    copy := { copy with backtrackLimit := limit }
  if let some layout := value.member? "layout" then
    let some layout := layout? layout.merged | throw .layoutValue
    copy := { copy with layout }
  commit copy

inductive Request where
  | read (text : String)
  | update (value : Json)

def Request.outcome (settings : Settings) : Request → Except SettingsFault Settings
  | .read text => ofText text
  | .update value => settings.update value

def Request.perform : Request → EStateM SettingsFault Settings Unit
  | .read text =>
    match ofText text with
    | .ok settings => set settings
    | .error fault => throw fault
  | .update value => change value

/-- The settings behind some requests, of which each is served whether or not the others fail. -/
def serve (settings : Settings) : List Request → Settings
  | [] => settings
  | request :: rest =>
    match request.perform.run settings with
    | .ok _ after => serve after rest
    | .error _ after => serve after rest

end Settings

end LosslessTree
