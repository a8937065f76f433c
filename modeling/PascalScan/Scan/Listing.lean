import PascalScan.Scan
import PascalScan.Token.Outline

/-!
# `PascalScan.Scan.Listing`: a scan written as text

A listing opens with a line on the outcome and the number of bytes scanned; the outlines of the
tokens follow, each one tab in.
-/

set_option autoImplicit false

namespace PascalScan.Scan

/-- The first line of a listing. -/
def header (s : Scan) : String :=
  "STATUS = " ++ s.status.name ++ " Length = " ++ toString s.size ++ "\n"

/-- The listing of a scan of `source`. -/
def listing (source : String) (s : Scan) : String :=
  s.tokens.foldl (fun written t => written ++ ("\t" ++ t.render source "\t" ++ "\n")) s.header

end PascalScan.Scan
