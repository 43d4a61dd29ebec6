/-!
# Lines

A text made of lines, each ended by a line feed.
-/

namespace OberonImports.Text

def unlines (lines : List String) : String := String.join (lines.map (· ++ "\n"))

end OberonImports.Text
