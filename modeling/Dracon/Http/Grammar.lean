import Dracon.Http.Chars

set_option autoImplicit false

namespace Dracon

open Shared

def IsEol (eol : Bytes) : Prop := eol = [lf] ∨ eol = [cr, lf]

def Tchar (c : Byte) : Prop := isAlpha c ∨ isDigit c ∨ c ∈ bytes "!#$%&'*+-.^_`|~"

def Vchar (c : Byte) : Prop := 0x21 ≤ c ∧ c ≤ 0x7e

def FieldChar (c : Byte) : Prop := c = htab ∨ c = sp ∨ Vchar c ∨ 0x80 ≤ c

def DecimalDigit (c : Byte) : Prop := ch '0' ≤ c ∧ c ≤ ch '9'

def decimalValue (digits : Bytes) : Nat := digits.foldl (fun acc c => 10 * acc + digitValue c) 0

def IsRequestLine (text : Bytes) : Prop :=
  ∃ method target digit, text = method ++ sp :: (target ++ sp :: (bytes "HTTP/1." ++ [digit])) ∧
    method ≠ [] ∧ (∀ c ∈ method, Tchar c) ∧ target ≠ [] ∧ (∀ c ∈ target, Vchar c) ∧
    DecimalDigit digit

structure Field where
  name : Bytes
  value : Bytes
  deriving DecidableEq, Repr

def Trimmed (value : Bytes) : Prop :=
  (∀ c ∈ value.head?, isOws c = false) ∧ ∀ c ∈ value.getLast?, isOws c = false

def AllOws (str : Bytes) : Prop := ∀ c ∈ str, isOws c

structure Field.IsLine (field : Field) (text : Bytes) : Prop where
  layout : ∃ before after, AllOws before ∧ AllOws after ∧
    text = field.name ++ ch ':' :: (before ++ field.value ++ after)
  named : field.name ≠ []
  token : ∀ c ∈ field.name, Tchar c
  chars : ∀ c ∈ field.value, FieldChar c
  trimmed : Trimmed field.value

inductive FieldLines : List Field → Bytes → Prop
  | nil : FieldLines [] []
  | cons {field : Field} {fields : List Field} {text eol lines : Bytes} :
      field.IsLine text → IsEol eol → FieldLines fields lines →
      FieldLines (field :: fields) (text ++ eol ++ lines)

def Field.Is (field : Field) (name : String) : Prop := iequals field.name (bytes name)

instance (field : Field) (name : String) : Decidable (field.Is name) :=
  inferInstanceAs (Decidable (iequals field.name (bytes name) = true))

def elements (value : Bytes) : List Bytes :=
  ((value.splitOn (ch ',')).map trimOws).filter (· ≠ [])

structure Framed (fields : List Field) : Prop where
  lengths : ∃ length < 2 ^ 64 - 1, ∀ field ∈ fields, field.Is "Content-Length" →
    field.value ≠ [] ∧ (∀ c ∈ field.value, DecimalDigit c) ∧ decimalValue field.value = length
  codings : ∀ field ∈ fields, field.Is "Transfer-Encoding" →
    ∃ coding, elements field.value = [coding] ∧ iequals coding (bytes "chunked")
  single : (fields.filter (·.Is "Transfer-Encoding")).length ≤ 1
  exclusive : ¬ ((∃ field ∈ fields, field.Is "Content-Length") ∧
    ∃ field ∈ fields, field.Is "Transfer-Encoding")

def HeadOf (fields : List Field) (head : Bytes) : Prop :=
  ∃ blanks request eol lines last,
    head = List.flatten blanks ++ (request ++ eol ++ (lines ++ last)) ∧
    (∀ blank ∈ blanks, IsEol blank) ∧ IsRequestLine request ∧ IsEol eol ∧
    FieldLines fields lines ∧ IsEol last ∧ fields.length ≤ 100 ∧ Framed fields ∧
    head.length ≤ 8192

def HexDigit (c : Byte) : Prop := DecimalDigit c ∨ ch 'a' ≤ c ∧ c ≤ ch 'f' ∨ ch 'A' ≤ c ∧ c ≤ ch 'F'

def hexNumber (digits : Bytes) : Nat := digits.foldl (fun acc c => 16 * acc + hexValue c) 0

-- what may follow the digits of a chunk size
def IsExtension (ext : Bytes) : Prop :=
  ∃ blanks rest, ext = blanks ++ rest ∧ AllOws blanks ∧
    (rest = [] ∨ ∃ chars, rest = ch ';' :: chars ∧ ∀ c ∈ chars, FieldChar c)

def IsChunkSize (text : Bytes) (size : Nat) : Prop :=
  ∃ digits ext, text = digits ++ ext ∧ digits ≠ [] ∧ digits.length ≤ 16 ∧ (∀ c ∈ digits, HexDigit c) ∧
    hexNumber digits = size ∧ IsExtension ext

def IsChunk (chunk : Bytes) : Prop :=
  ∃ text eol data eol', chunk = text ++ eol ++ data ++ eol' ∧ IsChunkSize text data.length ∧ data ≠ [] ∧
    IsEol eol ∧ IsEol eol'

def IsTrailer (trailer : Bytes) : Prop :=
  ∃ text eol, trailer = text ++ eol ∧ text ≠ [] ∧ (∀ c ∈ text, FieldChar c) ∧ IsEol eol

-- `*chunk last-chunk *trailer CRLF`
def IsChunkedBody (body : Bytes) : Prop :=
  ∃ chunks last eol trailers eol', body = List.flatten chunks ++ (last ++ eol) ++ List.flatten trailers ++ eol' ∧
    (∀ chunk ∈ chunks, IsChunk chunk) ∧ IsChunkSize last 0 ∧ IsEol eol ∧
    (∀ trailer ∈ trailers, IsTrailer trailer) ∧ IsEol eol'

-- The body of a request with these fields.
inductive BodyOf (fields : List Field) : Bytes → Prop
  | chunked {body : Bytes} : (∃ field ∈ fields, field.Is "Transfer-Encoding") → IsChunkedBody body →
      BodyOf fields body
  | length {body : Bytes} : (∃ field ∈ fields, field.Is "Content-Length" ∧
      decimalValue field.value = body.length) → BodyOf fields body
  | none : (∀ field ∈ fields, ¬ field.Is "Content-Length" ∧ ¬ field.Is "Transfer-Encoding") →
      BodyOf fields []

def IsMessage (message : Bytes) : Prop :=
  ∃ fields head body, message = head ++ body ∧ HeadOf fields head ∧ BodyOf fields body

end Dracon
