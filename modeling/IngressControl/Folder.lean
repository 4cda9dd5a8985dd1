import IngressControl.Source
import IngressControl.Text.Basic

/-!
A folder of manifests. Files are found by path; a path may hold empty segments and dots, which lead
from a folder to itself.
-/

namespace IngressControl

namespace Path

def segments (path : String) : List String :=
  ((Text.pieces '/' path.toList).map String.ofList).filter (fun s => s != "" && s != ".")

/-- The slashes that a path begins with: one, or two if there are exactly two. -/
def root (path : String) : String :=
  match path.toList.takeWhile (· == '/') with
  | [] => ""
  | [_, _] => "//"
  | _ => "/"

/-- A path without the segments that mean nothing; a dot stands for no segment at all. -/
def normalize (path : String) : String :=
  let text := root path ++ "/".intercalate (segments path)
  if text == "" then "." else text

end Path

abbrev Folder := List (String × List Document)

namespace Folder

inductive Entry
  | folder
  | file (documents : List Document)
deriving Repr

def standing : Folder := [("/dev/null", [])]

def standingFolders : List String :=
  ["/etc", "/home", "/proc", "/root", "/sys", "/tmp", "/usr", "/var"]

/-- Whether a path without empty segments and dots leads to a folder: one above, one that is
everywhere, or one that holds a file. -/
def isFolder (folder : Folder) (path : String) : Bool :=
  (Path.segments path).all (· == "..") || standingFolders.contains path ||
    (folder ++ standing).any (fun entry => (path ++ "/").toList.isPrefixOf entry.1.toList)

def maxSegment : Nat := 255

def maxPath : Nat := 4095

/-- Follows the segments of a path from where the first ones led. Nothing can follow a file. -/
def follow (folder : Folder) (path : String) (reached : String) :
    List String → Except Fault Entry
  | [] => .ok .folder
  | segment :: rest =>
    if segment == "" || segment == "." then follow folder path reached rest
    else if maxSegment < segment.utf8ByteSize then .error (.nameTooLong path)
    else
      let here := reached ++ segment
      match Ledger.get? here (folder ++ standing) with
      | some documents =>
        if rest.isEmpty then .ok (.file documents) else .error (.notADirectory path)
      | none =>
        if folder.isFolder here then follow folder path (here ++ "/") rest
        else .error (.fileMissing path)

/-- What a path leads to, if it leads anywhere; the empty path does not. -/
def locate (folder : Folder) (path : String) : Except Fault Entry :=
  if path.toList.contains '\x00' then .error .nullInPath
  else if path.isEmpty then .error (.fileMissing path)
  else if maxPath < path.utf8ByteSize then .error (.nameTooLong path)
  else follow folder path (Path.root path) ((Text.pieces '/' path.toList).map String.ofList)

/-- Whether a path leads to a file or a folder, which can be asked of every path without the null
character. -/
def holds (folder : Folder) (path : String) : Except Fault Bool :=
  match folder.locate path with
  | .ok _ => .ok true
  | .error .nullInPath => .error .nullInPath
  | .error _ => .ok false

def read (folder : Folder) (path : String) : Except Fault (List Document) :=
  match folder.locate path with
  | .ok (.file documents) => .ok documents
  | .ok .folder => .error (.directory path)
  | .error fault => .error fault

end Folder

end IngressControl
