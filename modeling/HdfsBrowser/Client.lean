import HdfsBrowser.Fault
import HdfsBrowser.Http.Response
import HdfsBrowser.Json.WellFormed

/-!
# The client library

Requests go out through a library for HTTP.  Its encoding of host names beyond
ASCII and its reading of bodies depend on tables, on character sets and on
limits of its own, and are left open: a `Client` is any library that gives host
names in ASCII letters and documents that a JSON text can say.  Texts are made of
characters; half of a surrogate pair is none, and stands for a replacement.

A body may also be one that the library cannot read, for instance because its
character set needs a mark at the start that is missing, or because the
document is nested too deeply.  The library then raises a fault of its own.
-/

namespace HdfsBrowser

def isHostNameChar (c : Char) : Bool := c.isLower || c.isDigit || c == '-' || c == '.'

structure HostName where
  chars : List Char
  plain : chars.all isHostNameChar = true

structure Document where
  value : Value
  wellFormed : value.WellFormed

class Client where
  /-- The name in ASCII of a host with characters beyond it. -/
  encodeHost? : String → Option HostName
  /-- The host that is shown for a name whose first label is encoded. -/
  decodeHost : String → Except Fault String
  text : Response → Except Fault String
  /-- The document in a body; none when the body is no JSON. -/
  document? : Response → Except Fault (Option Document)

end HdfsBrowser
