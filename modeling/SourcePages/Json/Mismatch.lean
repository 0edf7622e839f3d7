import SourcePages.Decimal.Layout
import SourcePages.Text.Quoted

namespace SourcePages.Json

inductive Real where
  | finite (x : Binary64)
  | infinite (negative : Bool)
  | notANumber
  deriving DecidableEq, Repr

inductive Found where
  | null
  | bool (b : Bool)
  | integer (i : Int)
  | real (x : Real)
  | text (s : String)
  | sequence
  | map
  deriving DecidableEq, Repr

inductive Mismatch where
  | wrongType (found : Found) (wanted : String)
  | wrongValue (found : Found) (wanted : String)
  | wrongLength (length : Nat) (wanted : String)
  | missingField (name : String)
  | duplicateField (name : String)
  | unknownVariant (name : String) (wanted : String)
  deriving DecidableEq, Repr

structure Wording where
  null : String
  numbers : NumberStyle

def Real.format (style : NumberStyle) : Real → String
  | .finite x => style.format x
  | .infinite negative => if negative then "-inf" else "inf"
  | .notANumber => "NaN"

def Found.message (w : Wording) : Found → String
  | .null => w.null
  | .bool b => "boolean `" ++ (if b then "true" else "false") ++ "`"
  | .integer i => "integer `" ++ toString i ++ "`"
  | .real x => "floating point `" ++ x.format w.numbers ++ "`"
  | .text s => "string " ++ Text.quoted s
  | .sequence => "sequence"
  | .map => "map"

def Mismatch.message (w : Wording) : Mismatch → String
  | .wrongType found wanted => "invalid type: " ++ found.message w ++ ", expected " ++ wanted
  | .wrongValue found wanted => "invalid value: " ++ found.message w ++ ", expected " ++ wanted
  | .wrongLength length wanted => "invalid length " ++ toString length ++ ", expected " ++ wanted
  | .missingField name => "missing field `" ++ name ++ "`"
  | .duplicateField name => "duplicate field `" ++ name ++ "`"
  | .unknownVariant name wanted => "unknown variant `" ++ name ++ "`, expected " ++ wanted

end SourcePages.Json
