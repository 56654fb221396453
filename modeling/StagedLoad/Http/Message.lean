import StagedLoad.Duration.Printer
import StagedLoad.Files.Basic

/-!
# Requests and responses

What is sent to a server and what comes back, and why nothing may come back.

## Main definitions

* `HttpRequest`, `HttpResponse` — the messages.
* `TransportKind`, `TransportFault` — why there is no response.
* `Header.isName`, `Header.isValue` — which headers can be sent.
-/

namespace StagedLoad

/-- The kinds of reasons why a request has no response. -/
inductive TransportKind
  /-- The URL cannot be read. -/
  | invalidUrl
  /-- The URL is none of the web. -/
  | unsupportedScheme
  /-- The request cannot be put together. -/
  | requestBuild
  /-- The name of a header cannot be sent. -/
  | headerName
  /-- The value of a header cannot be sent. -/
  | headerValue
  /-- The exchange failed. -/
  | request
  /-- The exchange took too long. -/
  | timeout
  /-- The body of the response broke off. -/
  | bodyRead
  /-- A file that belongs to the request cannot be read. -/
  | fixture
  deriving DecidableEq, Repr, Inhabited

namespace TransportKind

/-- The name of a kind. -/
def name : TransportKind → String
  | invalidUrl => "invalid_url"
  | unsupportedScheme => "unsupported_scheme"
  | requestBuild => "request_build"
  | headerName => "header_name"
  | headerValue => "header_value"
  | request => "request"
  | timeout => "timeout"
  | bodyRead => "body_read"
  | fixture => "fixture"

/-- All kinds. -/
def all : List TransportKind :=
  [invalidUrl, unsupportedScheme, requestBuild, headerName, headerValue, request, timeout,
    bodyRead, fixture]

/-- The kind with a name. -/
def named? (s : String) : Option TransportKind := all.find? fun k => k.name == s

end TransportKind

/-- Why a request has no response. -/
inductive TransportFault
  /-- The URL cannot be read. -/
  | invalidUrl (url : String)
  /-- The URL is none of the web. -/
  | unsupportedScheme (url : String)
  /-- The request cannot be put together. -/
  | requestBuild (reason : String)
  /-- The name of a header cannot be sent. -/
  | headerName
  /-- The value of a header cannot be sent. -/
  | headerValue
  /-- The exchange failed. -/
  | request (reason : String)
  /-- The exchange took longer than allowed. -/
  | timeout (limit : Duration)
  /-- The body of the response broke off. -/
  | bodyRead (reason : String)
  /-- A file that belongs to the request cannot be read. -/
  | fixture (path : String) (fault : FileFault)
  deriving DecidableEq, Repr

namespace TransportFault

/-- The kind of a fault. -/
def kind : TransportFault → TransportKind
  | invalidUrl _ => .invalidUrl
  | unsupportedScheme _ => .unsupportedScheme
  | requestBuild _ => .requestBuild
  | headerName => .headerName
  | headerValue => .headerValue
  | request _ => .request
  | timeout _ => .timeout
  | bodyRead _ => .bodyRead
  | fixture _ _ => .fixture

/-- What caused a fault, if it was not the request itself. -/
def cause? : TransportFault → Option String
  | invalidUrl _ | unsupportedScheme _ | timeout _ => none
  | requestBuild reason | request reason | bodyRead reason => some reason
  | headerName => some "invalid HTTP header name"
  | headerValue => some "failed to parse header value"
  | fixture _ fault => some fault.message

/-- What a fault is about. -/
def subject : TransportFault → String
  | invalidUrl url => "invalid url: " ++ url
  | unsupportedScheme url => "only http:// and https:// URLs are supported: " ++ url
  | requestBuild _ => "http request build failed"
  | headerName => "invalid http header name"
  | headerValue => "invalid http header value"
  | request _ => "http request failed"
  | timeout limit => "http request timed out after " ++ limit.render
  | bodyRead _ => "failed to read response body"
  | fixture path _ => "failed to read fixture " ++ path

/-- The wording of a fault. -/
def message (f : TransportFault) : String :=
  f.subject ++ f.cause?.elim "" fun reason => ": " ++ reason

/-- The wording of a fault followed by that of its cause, which stands in it already. -/
def trace (f : TransportFault) : String :=
  f.message ++ f.cause?.elim "" fun reason => ": " ++ reason

end TransportFault

/-- A request. -/
structure HttpRequest where
  /-- The method. -/
  method : String := "GET"
  /-- The URL as a text. -/
  url : String
  /-- The headers in the order in which they are sent. -/
  headers : List (String × String) := []
  /-- The body. -/
  body : Bytes := []
  /-- How long the exchange may take, if there is a limit. -/
  timeout : Option Duration := none
  deriving DecidableEq, Repr, Inhabited

/-- A response. -/
structure HttpResponse where
  /-- The status. -/
  status : Nat
  /-- The headers, one for each name in lower case, in the order of the names. -/
  headers : List (String × String) := []
  /-- The body. -/
  body : Bytes := []
  deriving DecidableEq, Repr, Inhabited

namespace Header

/-- The characters of tokens. -/
def isTokenChar (c : Char) : Bool :=
  c.isAlphanum || ['!', '#', '$', '%', '&', '\'', '*', '+', '-', '.', '^', '_', '\x60', '|',
    '~'].contains c

/-- Whether a text is a token: characters that need no quotes, at least one. -/
def isToken (s : String) : Bool := !s.isEmpty && s.toList.all isTokenChar

/-- The greatest number of bytes in the name of a header. -/
def greatestName : Nat := 65535

/-- Whether a text can be the name of a header. -/
def isName (s : String) : Bool := isToken s && s.utf8ByteSize ≤ greatestName

/-- Whether a text can be the value of a header: no controls but the tab. -/
def isValue (s : String) : Bool :=
  s.toList.all fun c => (0x20 ≤ c.toNat && c.toNat != 0x7F) || c == '\t'

/-- A name with its ASCII letters lowered. -/
def lower (s : String) : String := String.ofList (s.toList.map Char.toLower)

/-- Whether a list of headers has one with a name, in any letter case. -/
def has (headers : List (String × String)) (name : String) : Bool :=
  headers.any fun h => lower h.1 == lower name

/-- Why a header cannot be sent. -/
def fault? (h : String × String) : Option TransportFault :=
  if !isName h.1 then some .headerName
  else if !isValue h.2 then some .headerValue
  else none

end Header

end StagedLoad
