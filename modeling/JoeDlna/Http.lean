import JoeDlna.Lib.Text

/-!
# Requests and responses

The part of HTTP that the handlers see: the method and the headers of a request, and the status,
the headers and the body of a response.
-/

namespace JoeDlna

open Lib

/-- The methods the routes of the control point and of the media files accept. -/
inductive Method
  | get
  | head
deriving DecidableEq, Repr

inductive StatusCode
  | ok
  | partialContent
  | badRequest
  | notFound
  | methodNotAllowed
  | preconditionFailed
  | rangeNotSatisfiable
  | internalServerError
deriving DecidableEq, Repr

def StatusCode.code : StatusCode → ℕ
  | .ok => 200
  | .partialContent => 206
  | .badRequest => 400
  | .notFound => 404
  | .methodNotAllowed => 405
  | .preconditionFailed => 412
  | .rangeNotSatisfiable => 416
  | .internalServerError => 500

/-- The headers of a request, in order: lowercase names, and values as bytes. -/
abbrev HeaderMap := List (Text × List UInt8)

/-- `HeaderValue::to_str`: only visible ASCII, spaces and tabs. -/
def headerValueStr (value : List UInt8) : Option Text :=
  if value.all fun b => (0x20 ≤ b && b < 0x7F) || b = 0x09 then
    some (value.map fun b => Char.ofNat b.toNat)
  else none

/-- The first value of a header, when it is text. -/
def HeaderMap.str (headers : HeaderMap) (name : String) : Option Text :=
  (List.lookup name.toList headers).bind headerValueStr

structure Response where
  status : StatusCode
  headers : List (String × Text)
  body : List UInt8
deriving DecidableEq, Repr

/-- The value of a response header. -/
def Response.header (r : Response) (name : String) : Option Text := r.headers.lookup name

/-- `status.into_response()`. -/
def StatusCode.response (status : StatusCode) : Response where
  status := status
  headers := []
  body := []

/-! ### The address of the server -/

/-- An `Ipv4Addr`, by its octets. -/
abbrev Ipv4Addr := UInt8 × UInt8 × UInt8 × UInt8

def displayIpv4 (a : Ipv4Addr) : Text :=
  decimal a.1.toNat ++ ".".toList ++ decimal a.2.1.toNat ++ ".".toList ++ decimal a.2.2.1.toNat ++
    ".".toList ++ decimal a.2.2.2.toNat

/-- The `base_url` of the server on an interface and a port. -/
def baseUrl (interface : Ipv4Addr) (httpPort : UInt16) : Text :=
  "http://".toList ++ displayIpv4 interface ++ ":".toList ++ decimal httpPort.toNat

end JoeDlna
