import SourcePages.Decimal.Binary64
import SourcePages.Page
import SourcePages.Path.Basic

namespace SourcePages

structure Document where
  source : Path
  output : Path
  units : Nat
  types : Nat
  functions : Nat
  deriving DecidableEq, Repr

structure Failure where
  source : Path
  error : String
  deriving DecidableEq, Repr

structure Stats where
  found : Nat
  written : Nat
  failed : Nat
  units : Nat
  types : Nat
  functions : Nat
  deriving DecidableEq, Repr

def total (count : Document → Nat) : List Document → Nat
  | [] => 0
  | d :: rest => count d + total count rest

def Stats.ofResults (found : Nat) (documents : List Document) (failures : List Failure) :
    Stats where
  found := found
  written := documents.length
  failed := failures.length
  units := total Document.units documents
  types := total Document.types documents
  functions := total Document.functions documents

structure Metadata where
  durationMs : Nat
  filesPerSecond : Binary64
  timestamp : String
  toolVersion : String
  dryRun : Bool
  deriving DecidableEq, Repr

def releaseVersion : String := "0.1.0"

def Metadata.unclocked (timestamp : String) (dryRun : Bool) : Metadata :=
  ⟨0, Binary64.zero, timestamp, releaseVersion, dryRun⟩

structure Report where
  root : Path
  outputDir : Path
  repository : Repository
  includes : List String
  documents : List Document
  failures : List Failure
  stats : Stats
  metadata : Metadata
  deriving DecidableEq, Repr

def Report.hasFailures (r : Report) : Bool :=
  !r.failures.isEmpty

end SourcePages
