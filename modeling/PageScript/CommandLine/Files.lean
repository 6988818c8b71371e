import PageScript.CommandLine.Path

/-!
What the tools see of a file system: what is found at a path.
-/
namespace PageScript

/-- What is found at a path. -/
inductive Found where
  | file (bytes : List UInt8)
  | directory
  | missing
  /-- The path goes through something that is no directory. -/
  | noDirectory
  /-- The path is no name for a file. -/
  | unnameable

/-- Why a file cannot be read, for what is none. -/
def Found.refusal : Found → String
  | file _ => ""
  | directory => "Is a directory"
  | missing => "No such file or directory"
  | noDirectory => "Not a directory"
  | unnameable => "Invalid name"

/-- The files below a directory, by their steps from it; without bytes, the directories there. -/
abbrev Files := List (List String × Option (List UInt8))

namespace Files

/-- What a place without any further steps holds. -/
def entry (files : Files) (place : List String) : Found :=
  match files.find? (·.1 = place) with
  | some (_, some bytes) => .file bytes
  | some (_, none) => .directory
  | none =>
    if place.isEmpty || files.any (fun file => place.isPrefixOf file.1) then .directory
    else .missing

/-- Follows the steps of a path from a place. Nothing is known of what is outside. -/
def follow (files : Files) (place : List String) : List String → Found
  | [] => entry files place
  | step :: rest =>
    match entry files place with
    | .directory =>
      if step = ".." then
        if place.isEmpty then if rest.isEmpty then .directory else .missing
        else follow files place.dropLast rest
      else follow files (place ++ [step]) rest
    | .file _ => .noDirectory
    | other => other

/-- What a path leads to from the directory of the files. -/
def look (files : Files) (path : Path) : Found :=
  if !path.isNameable then .unnameable
  else if path.root ≠ "" then if path.steps.isEmpty then .directory else .missing
  else follow files [] path.steps

end Files
end PageScript
