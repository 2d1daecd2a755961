import Jukebox.Config
import Jukebox.Text.Quoted
import Jukebox.Toml.Document

/-!
# Configuration files

A configuration is read from a TOML text, or from a file of the working folder. The folder has no
folders inside it, so a path leads to a file only by its name, with steps that stay in place in
front of it.
-/

namespace Jukebox.Config

/-- In TOML a case holds an empty list or table, and a list may go on behind the parts. -/
def tomlForm : Json.Form where
  isNothing
    | .list [] => true
    | .object [] => true
    | _ => false
  mayGoOn := true

/-- Why there is no configuration. -/
inductive Fault where
  | unreadableText
  | missingFile (path : String)
  | unreadableFile (path : String)
  deriving DecidableEq, Repr

def Fault.message : Fault → String
  | unreadableText => "parse hub config"
  | missingFile path => "read config " ++ Text.quoted path
  | unreadableFile path => "parse config " ++ Text.quoted path

/-- The configuration that a TOML text stands for. -/
def ofToml (text : String) : Except Fault Config :=
  match (Toml.read text).bind (ofRecord tomlForm) with
  | some c => .ok c
  | none => .error .unreadableText

/-- The file that a path leads to. -/
def fileNamed (folder : Table String) (path : String) : Option String :=
  match path.toList.splitOn '/' with
  | [] => none
  | first :: more =>
    let stays (step : List Char) : Bool := step = ['.']
    let skipped (step : List Char) : Bool := stays step || step.isEmpty
    if first.isEmpty then none
    else
      match if stays first then more.dropWhile skipped else first :: more with
      | [name] => folder.get? (String.ofList name)
      | _ => none

/-- The configuration in a file. -/
def load (folder : Table String) (path : String) : Except Fault Config :=
  match fileNamed folder path with
  | none => .error (.missingFile path)
  | some text => (ofToml text).mapError fun _ => .unreadableFile path

end Jukebox.Config
