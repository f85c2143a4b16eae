import HdfsBrowser.Url.Parser

/-!
# Messages

Requests and what comes back for them: a response, or a failure of the link
before there is one.
-/

namespace HdfsBrowser

inductive Method where
  | get
  | put
  deriving DecidableEq, Repr

def Method.name : Method → String
  | .get => "GET"
  | .put => "PUT"

structure Request where
  method : Method
  address : Url
  body : Bytes
  deriving DecidableEq, Repr

def Request.grounded (u : Url) : Url :=
  if u.isAbsolute then u
  else
    { scheme := "", user := "", host := "", port := none
      path := String.ofList ('/' :: u.path.toList.dropWhile (· == '/'))
      query := u.query
      fragment := none }

def Request.make [Client] (method : Method) (address : String) (body : Bytes) :
    Except UrlFault Request := do
  .ok ⟨method, grounded (← Url.parse address), body⟩

inductive LinkFault where
  | connect
  | connectTimeout
  | readTimeout
  | writeTimeout
  | poolTimeout
  | read
  | write
  | close
  | remoteProtocol
  | localProtocol
  | proxy
  | unsupported
  deriving DecidableEq, Repr

namespace LinkFault

def all : List LinkFault :=
  [.connect, .connectTimeout, .readTimeout, .writeTimeout, .poolTimeout, .read, .write, .close,
   .remoteProtocol, .localProtocol, .proxy, .unsupported]

def name : LinkFault → String
  | .connect => "ConnectError"
  | .connectTimeout => "ConnectTimeout"
  | .readTimeout => "ReadTimeout"
  | .writeTimeout => "WriteTimeout"
  | .poolTimeout => "PoolTimeout"
  | .read => "ReadError"
  | .write => "WriteError"
  | .close => "CloseError"
  | .remoteProtocol => "RemoteProtocolError"
  | .localProtocol => "LocalProtocolError"
  | .proxy => "ProxyError"
  | .unsupported => "UnsupportedProtocol"

def ofName? (name : String) : Option LinkFault := all.find? (·.name == name)

end LinkFault

inductive Reply where
  | response (r : Response)
  | failure (kind : LinkFault) (message : String)
  /-- A response that cannot be used: its content or its redirections are at fault. -/
  | broken (fault : Fault)
  deriving DecidableEq, Repr

end HdfsBrowser
