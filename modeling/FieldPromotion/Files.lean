import FieldPromotion.Config

/-!
# Files

A file tree as far as a command looks at it: regular files with their text, and directories. A
path says where something is, by its names from the root of the tree. A route is how someone wrote
that down: it may stay in place (`.`), go up (`..`), and repeat its slashes. Following a route from
a directory leads to a path, but a route is shown as it was written.
-/

namespace FieldPromotion

/-! ## §1 Routes -/

/-- A path from the root of a tree. -/
abbrev Path := List String

/-- A route: what stands between its slashes. -/
abbrev Route := List String

namespace Route

/-- Whether a part of a route leads anywhere; an empty part and a single dot do not. -/
def isStep (name : String) : Bool :=
  name != "" && name != "."

/-- The route that a text writes down; `none` if it starts at the root of all files, which lies
outside of every tree. -/
def ofText? (text : String) : Option Route :=
  if text.toList.head? = some '/' then none else some (text.splitOn "/")

/-- A route as it is written, from its first step on. -/
def text (r : Route) : String :=
  "/".intercalate (r.dropWhile fun name => !isStep name)

/-- The route to something in the directory that a route leads to. -/
def child (r : Route) (name : String) : Route :=
  if r.getLast? = some "" then r.dropLast ++ [name] else r ++ [name]

/-- What is left of a route when its steps are taken back one by one. The route is given from its
end, and a part that leads nowhere goes with the step after it. -/
def takenBack : List String → List Route
  | [] => []
  | name :: earlier =>
    if isStep name then
      (earlier.dropWhile fun name => !isStep name).reverse :: takenBack earlier
    else takenBack earlier

/-- A route and what is left of it when its steps are taken back. This looks at the text only: the
step `..` is taken back like any other. -/
def upwards (r : Route) : List Route :=
  r :: takenBack r.reverse

end Route

/-! ## §2 Trees -/

/-- The files of a tree; a path without text is a directory. -/
structure FileTree where
  entries : List (Path × Option String) := []
  deriving Inhabited

namespace FileTree

/-- The text of a regular file. -/
def read? (t : FileTree) (p : Path) : Option String :=
  (t.entries.lookup p).join

/-- Whether there is a directory. The directories above every entry exist. -/
def isDirectory (t : FileTree) (p : Path) : Bool :=
  t.entries.any fun e => (e.1 == p && e.2.isNone) || (p.length < e.1.length && p.isPrefixOf e.1)

/-- Follows a route from a directory, step by step. What a step starts from has to be a directory;
`none` when it is not, or when the route leaves the tree. -/
def follow? (t : FileTree) : Path → Route → Option Path
  | here, [] => some here
  | here, name :: names =>
    if here = [] ∨ t.isDirectory here then
      if !Route.isStep name then t.follow? here names
      else if name = ".." then
        if here = [] then none else t.follow? here.dropLast names
      else t.follow? (here ++ [name]) names
    else none

/-- The text of the file that a route leads to, seen from a directory. -/
def readAt? (t : FileTree) (here : Path) (r : Route) : Option String :=
  (t.follow? here r).bind t.read?

end FileTree

/-! ## §3 Looking for a configuration -/

/-- The name of configuration files. -/
def configFileName : String := "argfields.toml"

/-- The routes on which a configuration file is looked for, nearest first. -/
def Route.configs (start : Route) : List Route :=
  start.upwards.map (·.child configFileName)

/-- The nearest configuration file on a route from the root of the tree. -/
def FileTree.findConfig? (t : FileTree) (start : Route) : Option Route :=
  start.configs.find? fun r => (t.readAt? [] r).isSome

/-- Why a configuration could not be loaded. -/
inductive ConfigError where
  | unreadable
  | invalid
  deriving DecidableEq, Inhabited

/-- Loads a configuration file, by a route from the root of the tree. -/
def FileTree.loadConfig (t : FileTree) (r : Route) : Except ConfigError Config :=
  match t.readAt? [] r with
  | none => .error .unreadable
  | some text =>
    match Config.parse? text with
    | none => .error .invalid
    | some c => .ok c

end FieldPromotion
