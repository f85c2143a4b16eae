import HdfsBrowser.Client.Punycode
import HdfsBrowser.Json.Parser

/-!
# A client for programs

Reads bodies in the character sets that gateways use, and JSON in the
encodings of Unicode.  Nothing here limits how deeply a document is nested.
-/

namespace HdfsBrowser

namespace Response

def parameter? (name header : String) : Option String :=
  ((Text.splitOnChar ';' header.toList).drop 1).findSome? fun piece =>
    match Text.cutAtFirst '=' (Text.trimBy Text.isBlank piece) with
    | (key, some value) =>
      if (Text.trimEndBy Text.isBlank key).map Char.toLower = name.toList then
        some (String.ofList (Text.trimBy (· == '"') (Text.trimBy Text.isBlank value)))
      else none
    | _ => none

def charset (r : Response) : Charset :=
  (((r.header? "content-type").bind (parameter? "charset")).bind Charset.ofName?).getD .utf8

/-- The body as text; a byte order that only a mark could tell must have its mark. -/
def text (r : Response) : Except Fault String :=
  if r.charset.lacksMark r.body then
    .error (.client "UnicodeError" (r.charset.family ++ " stream does not start with BOM"))
  else .ok (r.charset.decodeLossy r.body)

end Response

namespace Document

def of? (v : Value) : Option Document := if h : v.WellFormed then some ⟨v, h⟩ else none

def detect : Bytes → Charset
  | 0 :: 0 :: 0xFE :: 0xFF :: _ => .utf32 none
  | 0xFF :: 0xFE :: 0 :: 0 :: _ => .utf32 none
  | 0xFE :: 0xFF :: _ => .utf16 none
  | 0xFF :: 0xFE :: _ => .utf16 none
  | 0xEF :: 0xBB :: 0xBF :: _ => .utf8Signed
  | a :: b :: c :: d :: _ =>
    if a = 0 then if b = 0 then .utf32 (some .big) else .utf16 (some .big)
    else if b = 0 then
      if c = 0 ∧ d = 0 then .utf32 (some .little) else .utf16 (some .little)
    else .utf8
  | [a, b] =>
    if a = 0 then .utf16 (some .big) else if b = 0 then .utf16 (some .little) else .utf8
  | _ => .utf8

/-- The bytes with U+FFFD for each surrogate that they write as if it were a character. -/
def replaceSurrogates : Bytes → Bytes
  | [] => []
  | a :: b :: c :: rest =>
    if a = 0xED ∧ 0xA0 ≤ b ∧ b < 0xC0 ∧ 0x80 ≤ c ∧ c < 0xC0 then
      0xEF :: 0xBF :: 0xBD :: replaceSurrogates rest
    else a :: replaceSurrogates (b :: c :: rest)
  | a :: rest => a :: replaceSurrogates rest

def decode? (bs : Bytes) : Option String :=
  match detect bs with
  | .utf16 order =>
    if bs.length % 2 = 0 then some ((Charset.utf16 order).decodeLossy bs) else none
  | charset => charset.decode? (replaceSurrogates bs)

def ofBytes? (bs : Bytes) : Option Document :=
  ((decode? bs).bind fun s => (Json.parse s).toOption).bind of?

end Document

@[reducible] def Client.plain : Client where
  encodeHost? := Punycode.encodeName?
  decodeHost := Punycode.decodeName
  text := Response.text
  document? r := .ok (Document.ofBytes? r.body)

end HdfsBrowser
