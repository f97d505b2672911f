import OverlayMotion.Datum.Check
import OverlayMotion.Datum.Json
import OverlayMotion.Expr.Operand
import OverlayMotion.Tool
/-! Everything that can go wrong between a job file and a video, in one type. -/
namespace OverlayMotion

inductive JobFault
  | unreadable (path : Path) (fault : FileFault)
  | malformed (path : Path)
  | invalid (path : Path) (problems : List Problem)

namespace JobFault

def problems : JobFault → List Problem
  | invalid _ problems => problems
  | _ => []

def message : JobFault → String
  | unreadable path fault => s!"Cannot read job file: {fault.message} | File: {path}"
  | malformed _ => "Malformed job file"
  | invalid path problems =>
    s!"Invalid job file | File: {path} | Problems: " ++ "; ".intercalate (problems.map Problem.text)

end JobFault

inductive Failure
  | job (fault : JobFault)
  | rejected (reason : Rejection Scalar)
  | formula (error : Expr.Error Scalar)
  | tool (error : ToolError)
  | unknownHome (user : String)
  | notText
  | unreadableNumber
  | infiniteNumber
  | unusableSetting
  | noDirectory (fault : FileFault)

namespace Failure

def ofFormula {α : Type} (result : Except (Expr.Error Scalar) α) : Except Failure α :=
  result.mapError formula

def ofRejection {α : Type} (result : Except (Rejection Scalar) α) : Except Failure α :=
  result.mapError rejected

end Failure

def Path.resolveHome (p : Path) (homes : String → Option Path) : Except Failure Path :=
  match p.expand? homes with
  | some p => .ok p
  | none => .error (.unknownHome (p.home?.getD ""))

end OverlayMotion
