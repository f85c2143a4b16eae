import HdfsBrowser.Number.Integer
import HdfsBrowser.Text.Quoted

/-!
# Refused addresses

Why a text is no address, with the wording of each reason.
-/

namespace HdfsBrowser

inductive UrlFault where
  | tooLong
  | partTooLong (part : String)
  | control (c : Char) (index : Nat)
  | partControl (part : String) (c : Char) (index : Nat)
  | badPart (name : String)
  | port (given : String)
  | ipv4 (host : String)
  | ipv6 (host : String)
  | hostName (host : String)
  | rootless
  | doubleSlash
  | leadingColon
  deriving DecidableEq, Repr

def UrlFault.message : UrlFault → String
  | .tooLong => "URL too long"
  | .partTooLong part => "URL component '" ++ part ++ "' too long"
  | .control c index =>
    "Invalid non-printable ASCII character in URL, " ++ Text.quoted (String.ofList [c]) ++
      " at position " ++ Numeral.text index ++ "."
  | .partControl part c index =>
    "Invalid non-printable ASCII character in URL " ++ part ++ " component, " ++
      Text.quoted (String.ofList [c]) ++ " at position " ++ Numeral.text index ++ "."
  | .badPart name => "Invalid URL component '" ++ name ++ "'"
  | .port given => "Invalid port: " ++ Text.quoted given
  | .ipv4 host => "Invalid IPv4 address: " ++ Text.quoted host
  | .ipv6 host => "Invalid IPv6 address: " ++ Text.quoted host
  | .hostName host => "Invalid IDNA hostname: " ++ Text.quoted host
  | .rootless => "For absolute URLs, path must be empty or begin with '/'"
  | .doubleSlash => "Relative URLs cannot have a path starting with '//'"
  | .leadingColon => "Relative URLs cannot have a path starting with ':'"

end HdfsBrowser
