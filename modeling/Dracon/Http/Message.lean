import Dracon.Http.Chars

set_option autoImplicit false

namespace Dracon

abbrev Fields := List (Bytes × Bytes)

def Fields.find (fields : Fields) (key : Bytes) : Option Bytes :=
  (List.find? (fun kv => kv.1 = key) fields).map Prod.snd

def statusCodes : List (Nat × String) :=
  [ (100, "100 Continue"), (101, "101 Switching Protocols"), (200, "200 OK"),
    (201, "201 Created"), (202, "202 Accepted"), (203, "203 Non-Authoritative Information"),
    (204, "204 No Content"), (205, "205 Reset Content"), (206, "206 Partial Content"),
    (300, "300 Multiple Choices"), (301, "301 Moved Permanently"), (302, "302 Found"),
    (303, "303 See Other"), (304, "304 Not Modified"), (305, "305 Use Proxy"),
    (306, "306 Switch Proxy"), (307, "307 Temporary Redirect"), (400, "400 Bad Request"),
    (401, "401 Unauthorized"), (402, "402 Payment Required"), (403, "403 Forbidden"),
    (404, "404 Not Found"), (405, "405 Method Not Allowed"), (406, "406 Not Acceptable"),
    (407, "407 Proxy Authentication Required"), (408, "408 Request Timeout"),
    (409, "409 Conflict"), (410, "410 Gone"), (411, "411 Length Required"),
    (412, "412 Precondition Failed"), (413, "413 Request Entity Too Large"),
    (414, "414 Request-URI Too Long"), (415, "415 Unsupported Media Type"),
    (416, "416 Requested Range Not Satisfiable"), (417, "417 Expectation Failed"),
    (431, "431 Request Header Fields Too Large"), (500, "500 Internal Server Error"),
    (501, "501 Not Implemented"), (502, "502 Bad Gateway"), (503, "503 Service Unavailable"),
    (504, "504 Gateway Timeout"), (505, "505 HTTP Version Not Supported") ]

-- The table is sorted and its keys are distinct, so `lower_bound` is a lookup.
def statusCodeString (status : UInt16) : Bytes :=
  bytes ((statusCodes.lookup status.toNat).getD "500 Internal Server Error") ++ crlf

def responseHeaderNameEquals (lhs rhs : Bytes) : Bool :=
  lhs.map toLowerAscii == rhs.map toLowerAscii

-- The text `append_header_part` appends: CR, LF and NUL become a space.
def headerPart (part : Bytes) : Bytes :=
  part.map fun c => if c = cr ∨ c = lf ∨ c = 0 then sp else c

def numberText (value : Nat) : Bytes := (Nat.toDigits 10 value).map ch

structure Response where
  statusCode : UInt16 := 500
  body : Bytes := []
  fields : Fields := []
  contentLength : Nat := body.length
  -- in seconds; -1 leaves the timeout of the session
  keepAlive : Int := -1
  deriving DecidableEq, Repr

def Response.toString (res : Response) (keepAliveOverride : Int := -1) : Bytes :=
  let statusCode := if res.statusCode = 0 then 500 else res.statusCode
  let informational : Bool := 100 ≤ statusCode && statusCode < 200
  let bodyLess := informational || statusCode == 204
  let kept := res.fields.filter fun kv =>
    !(responseHeaderNameEquals kv.1 (bytes "Content-Length")
      || responseHeaderNameEquals kv.1 (bytes "Transfer-Encoding")
      || responseHeaderNameEquals kv.1 (bytes "Keep-Alive")
      || responseHeaderNameEquals kv.1 (bytes "Connection"))
  let keepAlive := if keepAliveOverride = -1 then res.keepAlive else keepAliveOverride
  bytes "HTTP/1.1 " ++ statusCodeString statusCode
    ++ kept.flatMap (fun kv => headerPart kv.1 ++ bytes ": " ++ headerPart kv.2 ++ crlf)
    ++ (if bodyLess then []
        else if res.contentLength = chunkedData then bytes "Transfer-Encoding: chunked" ++ crlf
        else bytes "Content-Length: " ++ numberText res.contentLength ++ crlf)
    ++ (if informational then []
        else if 0 < keepAlive then
          bytes "Keep-Alive: timeout=" ++ numberText keepAlive.toNat ++ crlf
            ++ bytes "Connection: keep-alive" ++ crlf
        else bytes "Connection: close" ++ crlf)
    ++ crlf
    ++ (if bodyLess then [] else res.body)

structure ErrorCode where
  message : Bytes
  deriving DecidableEq, Repr

inductive Exc where
  | int (error : Int)
  | response (res : Response)
  | stdException (what : Bytes)
  | errorCode (ec : ErrorCode)
  | unknown
  deriving DecidableEq, Repr

def fail (status : UInt16) (reason : String) : Exc :=
  .response { statusCode := status, body := bytes reason }

inductive ParseState where
  | uninitialized
  | processingUrl
  | processingHeader
  | headersCompleted
  | processingBody
  | completed
  deriving DecidableEq, Repr

structure Request where
  fields : Fields := []
  keepAlive : Bool := false
  url : Bytes := []
  method : Bytes := []
  -- whether `m_callback` holds a function
  callback : Bool := false
  state : ParseState := .uninitialized
  maxBodySize : Nat := 0
  -- the pieces `append_body` has handed to the callback, oldest first
  delivered : List Bytes := []
  deriving DecidableEq, Repr

def Request.appendBodyCallback (req : Request) (callback : Bool) (maxSize : Nat) : Request :=
  { req with maxBodySize := maxSize, callback := callback }

-- `try_emplace`, or the combination of repeated fields when the key is there already.
def Request.addField (req : Request) (key value : Bytes) : Request :=
  if req.fields.any fun kv => kv.1 = key then
    { req with
      fields := req.fields.map fun kv =>
        if kv.1 = key then (kv.1, kv.2 ++ bytes ", " ++ value) else kv }
  else { req with fields := req.fields ++ [(key, value)] }

end Dracon
