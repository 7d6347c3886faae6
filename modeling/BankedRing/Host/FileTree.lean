import BankedRing.Host.Controller
import BankedRing.Text.Fields

/-! The host's file tree, as far as it decides whether a log can be opened. A log is
opened for appending and created where it is missing. A path is walked component by
component through existing directories; only its last component may be missing. -/
namespace BankedRing

/-- What stands at a path of the tree. -/
inductive FileNode where
  /-- A directory, and whether files can be created in it. -/
  | directory (growing : Bool)
  /-- A file that takes whatever is appended. -/
  | sink
  /-- A file that refuses whatever is appended. -/
  | full
  deriving DecidableEq

/-- The bytes of a component. -/
abbrev FileName := List UInt8

/-- Nodes by their components from the root. Relative paths start at the working
directory. -/
structure FileTree where
  nodes : List (List FileName × FileNode)
  workingDirectory : List FileName
  deriving DecidableEq

namespace FileTree

def root : FileNode := .directory true

def node? (tree : FileTree) (path : List FileName) : Option FileNode :=
  if path = [] then some root else tree.nodes.lookup path

def longestName : Nat := 255

def longestPath : Nat := 4095

/-- The directory that components lead to, from a directory on. -/
def walk (tree : FileTree) :
    (directory components : List FileName) → Except FileRefusal (List FileName)
  | directory, [] => .ok directory
  | directory, name :: rest =>
    if name = [Path.dot] then walk tree directory rest
    else if name = [Path.dot, Path.dot] then walk tree directory.dropLast rest
    else if longestName < name.length then .error .nameTooLong
    else match tree.node? (directory ++ [name]) with
      | none => .error .notFound
      | some (.directory _) => walk tree (directory ++ [name]) rest
      | some _ => .error .notDirectory

/-- The file that a name gives in a directory. A name with a slash behind it can only be
that of a directory. -/
def openIn (tree : FileTree) (directory : List FileName) (name : FileName) (slash : Bool) :
    Except FileRefusal ExecutionLog :=
  if name = [Path.dot] ∨ name = [Path.dot, Path.dot] ∨ slash then .error .isDirectory
  else if longestName < name.length then .error .nameTooLong
  else match tree.node? (directory ++ [name]), tree.node? directory with
    | some (.directory _), _ => .error .isDirectory
    | some .full, _ => .ok ⟨"", false, some .noSpace⟩
    | some .sink, _ | none, some (.directory true) => .ok ⟨"", false, none⟩
    | none, _ => .error .notFound

/-- Opens a log for appending. -/
def openLog (tree : FileTree) (path : Path) : Except FileRefusal ExecutionLog := do
  if path.bytes.contains 0 then throw .nullInName
  if path.bytes = [] then throw .notFound
  if longestPath < path.bytes.length then throw .nameTooLong
  let fields := Fields.split Path.slash path.bytes
  let start := if fields.head? = some [] then [] else tree.workingDirectory
  let components := fields.filter (· ≠ [])
  match components.getLast? with
  | none => throw .isDirectory
  | some name =>
    let directory ← tree.walk start components.dropLast
    tree.openIn directory name (fields.getLast? = some [])

/-- What a host has from the start. -/
def standard : FileTree where
  nodes :=
    let directories := [["bin"], ["boot"], ["dev"], ["etc"], ["home"], ["lib"], ["media"], ["mnt"],
      ["opt"], ["root"], ["run"], ["sbin"], ["srv"], ["tmp"], ["usr"], ["var"], ["work"],
      ["dev", "shm"], ["usr", "bin"], ["usr", "lib"], ["usr", "local"], ["usr", "share"],
      ["var", "cache"], ["var", "lib"], ["var", "log"], ["var", "tmp"]]
    let kernel := [["proc"], ["proc", "self"], ["proc", "self", "fd"], ["sys"]]
    let sinks := [["dev", "null"], ["dev", "zero"], ["dev", "random"], ["dev", "urandom"],
      ["etc", "passwd"], ["etc", "group"], ["etc", "hosts"], ["etc", "hostname"], ["bin", "sh"]]
    let nodes : List (List String × FileNode) := directories.map (·, .directory true) ++
      kernel.map (·, .directory false) ++ sinks.map (·, .sink) ++ [(["dev", "full"], .full)]
    nodes.map fun (path, node) => (path.map Utf8.encode, node)
  workingDirectory := [Utf8.encode "work"]

end FileTree
end BankedRing
