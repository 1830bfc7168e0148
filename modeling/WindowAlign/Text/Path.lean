/-!
# Paths as text

Paths are taken as they are written. A path is put below another with one slash
between them; one that begins with a slash stands for itself.
-/

namespace WindowAlign.Path

/-- Whether a path does not depend on a directory. -/
def isAbsolute (p : String) : Bool :=
  p.startsWith "/"

def join (directory p : String) : String :=
  if isAbsolute p then p
  else if directory.isEmpty then p
  else if directory.endsWith "/" then directory ++ p
  else directory ++ "/" ++ p

end WindowAlign.Path
