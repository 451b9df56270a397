import Cairn.Grid.Settle
import Cairn.Number.Reader

/-!
# The command line

Options begin with two dashes and may be given once; one file may be named. Arguments are taken from left
to right, and the first that cannot be accepted, or that asks for help, decides.
-/

namespace Cairn.CommandLine

/-- What the arguments ask for. -/
structure Options where
  file? : Option String := none
  logLevel? : Option String := none
  maxDt? : Option Float := none
  width? : Option Float32 := none
  height? : Option Float32 := none
  preview : Bool := false

/-- Why reading the arguments stops early. -/
inductive Stop where
  /-- Help was asked for. -/
  | help
  | unknown (argument : String)
  | repeated (option : String)
  | missingValue (option : String)
  | badValue (option value : String)
  | needlessValue (option : String)
deriving DecidableEq, Repr

/-- The options that take a value. -/
inductive Setting where
  | logLevel | maxDt | width | height
deriving DecidableEq, Repr

/-- The setting of a name. -/
def Setting.ofName? : String → Option Setting
  | "log-level" => some .logLevel
  | "max-dt" => some .maxDt
  | "width" => some .width
  | "height" => some .height
  | _ => none

/-- The name of a setting. -/
def Setting.name : Setting → String
  | .logLevel => "log-level"
  | .maxDt => "max-dt"
  | .width => "width"
  | .height => "height"

/-- A number given to a setting. -/
def number (setting : Setting) (value : String) : Except Stop Float :=
  match Number.read? value.toList with
  | some x => .ok x
  | none => .error (.badValue setting.name value)

/-- Puts a value in; a setting is given once only. -/
def once {α : Type} (setting : Setting) (old? : Option α) (new : α) : Except Stop (Option α) :=
  match old? with
  | none => .ok (some new)
  | some _ => .error (.repeated setting.name)

/-- Gives a setting its value. -/
def Options.set (o : Options) (setting : Setting) (value : String) : Except Stop Options := do
  match setting with
  | .logLevel => return { o with logLevel? := ← once setting o.logLevel? value }
  | .maxDt => return { o with maxDt? := ← once setting o.maxDt? (← number setting value) }
  | .width => return { o with width? := ← once setting o.width? (← number setting value).toFloat32 }
  | .height => return { o with height? := ← once setting o.height? (← number setting value).toFloat32 }

/-- Names the file. There is only one, and its name is not empty. -/
def Options.setFile (o : Options) (name : String) : Except Stop Options :=
  match o.file? with
  | some _ => .error (.unknown name)
  | none => if name.isEmpty then .error (.badValue "file" name) else .ok { o with file? := some name }

/-- Asks for the preview. -/
def Options.setPreview (o : Options) : Except Stop Options :=
  if o.preview then .error (.repeated "preview") else .ok { o with preview := true }

/-- Splits an option at the first `=`. -/
def splitValue (cs : List Char) : String × Option String :=
  let name := cs.takeWhile (· != '=')
  match cs.drop name.length with
  | [] => (String.ofList name, none)
  | _ :: value => (String.ofList name, some (String.ofList value))

/-- Can the argument be the value of the option before it? Only a lone dash may begin with one. -/
def isValue (argument : String) : Bool :=
  argument == "-" || argument.toList.head? != some '-'

/-- Takes the arguments after `--`: all of them are files. -/
def files (o : Options) : List String → Except Stop Options
  | [] => .ok o
  | name :: rest => do files (← o.setFile name) rest

/-- Takes the arguments in order. -/
def arguments (o : Options) : List String → Except Stop Options
  | [] => .ok o
  | argument :: rest =>
    match argument.toList with
    | ['-', '-'] => files o rest
    | '-' :: '-' :: cs =>
      let (name, value?) := splitValue cs
      match Setting.ofName? name with
      | some setting =>
        match value?, rest with
        | some value, rest => do arguments (← o.set setting value) rest
        | none, value :: rest => do
          if isValue value then arguments (← o.set setting value) rest
          else .error (.missingValue name)
        | none, [] => .error (.missingValue name)
      | none =>
        if name = "preview" then
          if value?.isSome then .error (.needlessValue name) else do arguments (← o.setPreview) rest
        else if name = "help" then
          if value?.isSome then .error (.needlessValue name) else .error .help
        else .error (.unknown argument)
    | '-' :: 'h' :: _ => .error .help
    | '-' :: _ :: _ => .error (.unknown argument)
    | _ => do arguments (← o.setFile argument) rest

/-- The program that is shown when no file is named. -/
def demo : String :=
"#
// arrows or WASD to move, space to change color
enum Tint \x7b Warm, Cool \x7d
player = \x7b x: 300, y: 220, tint: Warm \x7d
speed = 160

update(dt) \x7b
  if held(\"left\")  \x7b player.x -= speed * dt \x7d
  if held(\"right\") \x7b player.x += speed * dt \x7d
  if held(\"up\")    \x7b player.y -= speed * dt \x7d
  if held(\"down\")  \x7b player.y += speed * dt \x7d
  if pressed(\"jump\") \x7b
    player.tint = match player.tint \x7b Warm => Cool, Cool => Warm \x7d
    sound(\"blip\")
  \x7d
\x7d

draw \x7b
  clear(\"#1c1c20\")
  c = match player.tint \x7b Warm => \"orange\", Cool => \"cyan\" \x7d
  rect(player.x, player.y, 24, 24, color=c)
  text(\"x \" + floor(player.x) + \"  y \" + floor(player.y), 8, 8, size=14)
\x7d
"

/-- The help. -/
def help : String :=
"Edit and run Topple programs, where unsupported code falls before it runs

Usage: topple-app [OPTIONS] [FILE]

Arguments:
  [FILE]  Program to open; a small demo is loaded when omitted

Options:
      --log-level <LOG_LEVEL>  Log level, overridden by RUST_LOG [default: info]
      --max-dt <MAX_DT>        Longest frame step handed to `update`, in seconds [default: 0.1]
      --width <WIDTH>          Canvas width in pixels [default: 640]
      --height <HEIGHT>        Canvas height in pixels [default: 480]
      --preview                Print the program after falling and exit
  -h, --help                   Print help
"

/-- What the process does in the end. -/
inductive Response where
  /-- Writes `output` and ends with `code`. -/
  | finish (code : Nat) (output : String)
  /-- Opens the editor on a program. -/
  | edit (source : String) (options : Options)

/-- The program to work on: the file if one is named, which has to be readable text, or the demo. -/
def source? (o : Options) (readFile : String → Option ByteArray) : Option String :=
  match o.file? with
  | none => some demo
  | some name => (readFile name).bind String.fromUTF8?

/-- Answers the arguments, with the contents of files at hand. -/
def respond (args : List String) (readFile : String → Option ByteArray) : Response :=
  match arguments {} args with
  | .error .help => .finish 0 help
  | .error _ => .finish 2 ""
  | .ok o =>
    match source? o readFile with
    | none => .finish 1 ""
    | some source =>
      if o.preview then .finish 0 (String.ofList (fall source.toList).1 ++ "\n") else .edit source o

end Cairn.CommandLine
