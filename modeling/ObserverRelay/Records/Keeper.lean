import ObserverRelay.Files.Tree
import ObserverRelay.Records.Format
/-!
# Records kept in a file

Every change reads the file, changes the records and puts a new file in its place, so several
keepers of one path see each other's changes. A file that is not there counts as empty records.
-/
namespace ObserverRelay.Records

open Files

/-- Why kept records cannot be read or changed. -/
inductive KeepError
  | files (path : String) (refusal : Refusal)
  | notRecords (path reason : String)
  deriving DecidableEq, Repr

/-- The wording of an error. -/
def KeepError.message : KeepError → String
  | files path refusal => "I/O error on " ++ path ++ ": " ++ refusal.message
  | notRecords path reason => "invalid JSON in " ++ path ++ ": " ++ reason

/-- Where records are kept. -/
structure Keeper where
  path : String
  deriving DecidableEq, Repr

namespace Keeper

/-- The records that are kept. -/
def load (k : Keeper) (t : Tree) : Except KeepError Records :=
  match t.read k.path with
  | .error .notFound => .ok empty
  | .error refusal => .error (.files k.path refusal)
  | .ok contents =>
    match parse contents with
    | .error fault => .error (.notRecords k.path (fault.message contents))
    | .ok records => .ok records

/-- Keeps records in place of those before. -/
def save (k : Keeper) (t : Tree) (r : Records) : Except KeepError Unit × Tree :=
  let (result, t) := t.save k.path (Bytes.ofText r.text)
  (result.mapError (.files k.path), t)

/-- Changes the records that are kept. Clearing them does not look at what is there. -/
def change (k : Keeper) (t : Tree) : Change → Except KeepError Unit × Tree
  | .clear => k.save t empty
  | c =>
    match k.load t with
    | .error e => (.error e, t)
    | .ok records => k.save t (records.apply c)

/-- The answer of the records that are kept. -/
def ask (k : Keeper) (t : Tree) (q : Query) : Except KeepError Answer :=
  (k.load t).map fun records => records.answer q

end Keeper

end ObserverRelay.Records
