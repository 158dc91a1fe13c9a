import LosslessTree.Json.Printer
import LosslessTree.Parse.Basic
import LosslessTree.Text.Quoted

/-!
The command line. A command shows one aspect of a text: its tokens, its tree, its problems, or the
last two as JSON. What the files hold is given as a function, so that running a command computes a
text and changes nothing.
-/

namespace LosslessTree

namespace Command

inductive ReadFault where
  | missing
  | denied
  | directory
  | notText
  deriving DecidableEq, Repr

def ReadFault.message : ReadFault → String
  | missing => "No such file or directory (os error 2)"
  | denied => "Permission denied (os error 13)"
  | directory => "Is a directory (os error 21)"
  | notText => "stream did not contain valid UTF-8"

inductive Failure where
  | unreadable (name : String) (fault : ReadFault)
  | settings (fault : SettingsFault)
  | unknownCommand (name : String)
  deriving DecidableEq

def Failure.message : Failure → String
  | unreadable name fault => "cannot read " ++ name ++ ": " ++ fault.message
  | settings fault => (Error.settings fault).message?.getD "invalid configuration"
  | unknownCommand name => "unknown command: " ++ name

abbrev Files := String → Except ReadFault String

inductive Aspect where
  | tokens
  | tree
  | problems
  | json
  deriving DecidableEq, Repr

def Aspect.ofName? : String → Option Aspect
  | "token" => some tokens
  | "node" => some tree
  | "error" => some problems
  | "json" => some json
  | _ => none

/-- A token on one line: its flaw if it has one, and its text unless it stands for indentation. -/
def tokenLine (token : Token) : String :=
  token.span.render ++ ": " ++
    match token.flaw with
    | some flaw => "Error(" ++ flaw ++ ")"
    | none =>
      if token.isVirtual then token.kind.name ++ " (virtual)"
      else token.kind.name ++ " " ++ Text.quoted token.text

def lines (texts : List String) : String := String.join (texts.map fun text => text.push '\n')

def ofParsed (settings : Settings) (text : String) (render : Parsed → String) : String :=
  match parseText settings (.construct .module) text with
  | .ok parsed => render parsed
  | .error _ => ""

def Aspect.render (settings : Settings) (text : String) : Aspect → String
  | tokens => lines ((tokensOfText settings text).map tokenLine)
  | tree => ofParsed settings text fun parsed => parsed.tree.root.render
  | problems =>
    ofParsed settings text fun parsed => lines (parsed.problems.map Problem.render)
  | json => ofParsed settings text fun parsed => lines [parsed.toJson.pretty]

def usage : String := "usage: haskell-parse [token|node|error|json] <file> [config.json]"

def readFile (files : Files) (name : String) : Except Failure String :=
  (files name).mapError (.unreadable name)

def readSettings (files : Files) : Option String → Except Failure Settings
  | none => .ok .default
  | some name => do
    let text ← readFile files name
    (Settings.ofText text).mapError .settings

/-- Shows an aspect of a file. The files are read before the aspect is looked up. -/
def showFile (files : Files) (aspect name : String) (settingsName : Option String) :
    Except Failure String := do
  let text ← readFile files name
  let settings ← readSettings files settingsName
  match Aspect.ofName? aspect with
  | some aspect => .ok (aspect.render settings text)
  | none => .error (.unknownCommand aspect)

/-- Runs a command by its arguments. A wrong number of them shows how to use it. -/
def run (files : Files) : List String → Except Failure String
  | [aspect, name] => showFile files aspect name none
  | [aspect, name, settingsName] => showFile files aspect name (some settingsName)
  | _ => .ok (lines [usage])

end Command

end LosslessTree
