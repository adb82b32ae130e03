import YaccTables.Code.Layout
import YaccTables.Listing.Template

/-!
# The generated file in layout
-/

namespace YaccTables.Listing

/-- The generated file as something that lays out source text leaves it, if the text is well-formed.
The command line and the package may make it ill-formed. -/
def sourceWith (layout : Bytes → Option Bytes) (l : Listing) : Option Bytes := layout l.raw

/-- The generated file in the standard layout of Go source. -/
def source? (l : Listing) : Option Bytes := l.sourceWith Code.layout?

end YaccTables.Listing
