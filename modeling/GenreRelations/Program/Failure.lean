import GenreRelations.Expression.Error
import GenreRelations.Note

/-!
Why a command fails: the message for the user, and the exit code that tells rejected data from
files that cannot be read.
-/

namespace GenreRelations

/-- What a command reads a file for. -/
inductive FileKind where
  | records
  | note
  deriving DecidableEq, Repr

def FileKind.name : FileKind → Text
  | records => "track list".toList
  | note => "note".toList

/-- Why a command fails. -/
inductive Failure where
  | expression (error : ParseError)
  | note (error : NoteError)
  /-- A line of a record file gives no subgenre. -/
  | record (path : Text) (line : Nat)
  | unreadable (kind : FileKind) (path : Text)
  /-- Some of the records are rejected, of which the user has been told already. -/
  | rejected (failed total : Nat)
  deriving DecidableEq, Repr

namespace Failure

def message : Failure → Text
  | expression e => e.message
  | note e => e.message
  | record path line =>
    "invalid record at ".toList ++ path ++ ':' :: Text.ofNat line ++
      ": missing subgenre expression".toList
  | unreadable kind path => "operation failed: read ".toList ++ kind.name ++ ": ".toList ++ path
  | rejected failed total =>
    Text.ofNat failed ++ " of ".toList ++ Text.ofNat total ++ " records rejected".toList

/-- The exit code for data that is rejected. -/
def dataCode : Nat := 65

/-- The exit code for a file that cannot be read. -/
def fileCode : Nat := 74

def exitCode : Failure → Nat
  | unreadable _ _ => fileCode
  | _ => dataCode

end Failure

end GenreRelations
