import ProcessNets.Log

/-!
# URIs

The characters that no URI may hold, and what is told of a URI that holds one of them.
-/

namespace ProcessNets.Graph.Uri

/-- The characters that no URI may hold. -/
def forbidden : List Char :=
  "<>\" \x7b\x7d|\\^`".toList

def isClean (uri : String) : Bool :=
  uri.toList.all fun c => !forbidden.contains c

/-- What is told of a URI: that it is malformed, if it is. -/
def events (uri : String) : List Log.Event :=
  if isClean uri then [] else [.malformedUri uri]

end ProcessNets.Graph.Uri
