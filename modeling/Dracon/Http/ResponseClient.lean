import Dracon.Http.ResponseText

set_option autoImplicit false

namespace Dracon

open Shared

namespace Client

def fieldName (line : Bytes) : Bytes := (line.takeWhile (· ≠ ch ':')).rdropWhile isOws

def fieldValue (line : Bytes) : Bytes := trimOws ((line.dropWhile (· ≠ ch ':')).drop 1)

def decimal (text : Bytes) : Option Nat :=
  if text ≠ [] ∧ text.all isDigit then some (text.foldl (fun acc c => 10 * acc + digitValue c) 0) else none

def readHead (text : Bytes) : Option (List Bytes × Bytes) :=
  (cutAt (crlf ++ crlf) text).map fun parts => (lines cr [lf] (parts.1 ++ crlf), parts.2)

def statusCode (line : Bytes) : Option Nat :=
  if (bytes "HTTP/1.1 ").isPrefixOf line then decimal ((line.drop 9).take 3) else none

def bodiless (status : Nat) : Bool := (100 ≤ status && status < 200) || status == 204 || status == 304

def contentLength (fields : List Bytes) : Option Nat :=
  -- a length that is stated twice is not relied on
  match fields.filter fun line => responseHeaderNameEquals (fieldName line) (bytes "Content-Length") with
  | [line] => decimal (fieldValue line)
  | _ => none

def bodyLength (status : Nat) (fields : List Bytes) : Option Nat :=
  if bodiless status then some 0 else contentLength fields

structure Received where
  status : Nat
  body : Bytes
  rest : Bytes
  deriving DecidableEq

def receive (text : Bytes) : Option Received := do
  let (head, rest) ← readHead text
  let status ← head.head?.bind statusCode
  let length ← bodyLength status head.tail
  if length ≤ rest.length then some ⟨status, rest.take length, rest.drop length⟩ else none

end Client

theorem readHead_toString (res : Response) (keepAlive : Int) :
    Client.readHead (res.toString keepAlive) =
      some (res.statusLine :: (res.fieldLines ++ res.computedLines keepAlive), res.sentBody) := by
  obtain ⟨head, split, found⟩ := res.toString_cut keepAlive
  have read : lines cr [lf] (head ++ crlf) = res.headLines keepAlive := by
    rw [split]
    exact lines_flatMap fun line mem => (res.headLines_carriage keepAlive line mem).2
  rw [Client.readHead, found, Option.map_some, read]
  rfl

theorem takeWhile_colon {text : Bytes} (colon : ch ':' ∈ text) (more : Bytes) :
    (text ++ more).takeWhile (· ≠ ch ':') = text.takeWhile (· ≠ ch ':') := by
  rw [List.takeWhile_append, if_neg]
  intro whole
  have all := List.takeWhile_eq_self_iff.mp (List.IsPrefix.eq_of_length (List.takeWhile_prefix _) whole)
  simpa using all _ colon

theorem fieldName_append {text : Bytes} (colon : ch ':' ∈ text) (more : Bytes) :
    Client.fieldName (text ++ more) = Client.fieldName text := by
  rw [Client.fieldName, takeWhile_colon colon, Client.fieldName]

theorem decimal_numberText (value : Nat) : Client.decimal (numberText value) = some value := by
  have digits : (numberText value).all isDigit := List.all_eq_true.mpr fun c mem => mem_numberText mem
  have filled : numberText value ≠ [] := by simp [numberText, Nat.toDigits_ne_nil]
  rw [Client.decimal, if_pos ⟨filled, digits⟩, numberText, List.foldl_map]
  have same : ∀ acc, ∀ digit ∈ Nat.toDigits 10 value,
      10 * acc + digitValue (ch digit) = 10 * acc + (digit.toNat - '0'.toNat) := by
    intro acc digit mem
    rw [(ch_digit (Nat.isDigit_of_mem_toDigits (b := 10) (by decide) (by decide) mem)).2]
  rw [List.foldl_ext _ _ _ same, ← Nat.ofDigitChars_eq_foldl, Nat.ofDigitChars_toDigits (by decide) (by decide)]

-- CR, LF and NUL are sent as a space, and a client drops the blanks in front of the colon
def blank (c : Byte) : Bool := isOws c || c == cr || c == lf || c == 0

def shownName (key : Bytes) : Bytes := (key.takeWhile (· ≠ ch ':')).rdropWhile blank

-- A key that the filter of `to_string` lets through and a client takes for a name it drops.
def disguised (key : Bytes) : Bool := !reserved key && reserved (shownName key)

theorem rdropWhile_map {α β : Type} (f : α → β) (p : β → Bool) (l : List α) :
    (l.map f).rdropWhile p = (l.rdropWhile (p ∘ f)).map f := by
  rw [List.rdropWhile, ← List.map_reverse, List.dropWhile_map, ← List.map_reverse, List.rdropWhile]

theorem fieldName_fieldLine (field : Bytes × Bytes) :
    Client.fieldName (fieldLine field) = headerPart (shownName field.1) := by
  have name : (fieldLine field).takeWhile (· ≠ ch ':') = (headerPart field.1).takeWhile (· ≠ ch ':') := by
    have rest : (bytes ": " ++ headerPart field.2).takeWhile (· ≠ ch ':') = [] := rfl
    rw [fieldLine, List.append_assoc, List.takeWhile_append, rest]
    split_ifs with whole
    · have all := List.IsPrefix.eq_of_length (List.takeWhile_prefix _) whole
      rw [List.append_nil, all]
    · rfl
  rw [Client.fieldName, name, headerPart, List.takeWhile_map, rdropWhile_map, headerPart, shownName]
  congr 2
  · funext c
    simp only [Function.comp_apply, blank]
    split_ifs with replaced
    · rcases replaced with rfl | rfl | rfl <;> decide
    · simp [isOws]
      grind
  · congr 1
    funext c
    simp only [Function.comp_apply]
    split_ifs with replaced
    · rcases replaced with rfl | rfl | rfl <;> decide
    · rfl

theorem headerPart_eq_self {part : Bytes} (whole : clean part) : headerPart part = part := by
  unfold headerPart
  conv_rhs => rw [← List.map_id part]
  refine List.map_congr_left fun c mem => ?_
  have := clean_iff.mp whole c mem
  simp [this]

theorem nameEquals_headerPart {known : Bytes}
    (plain : (known.map toLowerAscii).all fun c => c != sp && c != cr && c != lf && c != 0) (name : Bytes) :
    responseHeaderNameEquals (headerPart name) known = responseHeaderNameEquals name known := by
  by_cases whole : clean name
  · rw [headerPart_eq_self whole]
  · obtain ⟨c, mem, replaced⟩ : ∃ c ∈ name, c = cr ∨ c = lf ∨ c = 0 := by
      by_contra none
      refine whole (clean_iff.mpr fun c mem => ?_)
      have kept : ¬ (c = cr ∨ c = lf ∨ c = 0) := fun replaced => none ⟨c, mem, replaced⟩
      simpa only [not_or] using kept
    have differs {text : Bytes} {d : Byte} (mem : d ∈ text) (lower : toLowerAscii d = d)
        (odd : d = sp ∨ d = cr ∨ d = lf ∨ d = 0) : responseHeaderNameEquals text known = false := by
      refine beq_false_of_ne fun same => ?_
      have among : d ∈ known.map toLowerAscii := by
        rw [← same, ← lower]
        exact List.mem_map_of_mem mem
      have := List.all_eq_true.mp plain d among
      grind
    have sent : sp ∈ headerPart name := List.mem_map.mpr ⟨c, mem, if_pos replaced⟩
    rw [differs sent (by decide) (.inl rfl)]
    refine (differs mem ?_ (.inr replaced)).symm
    rcases replaced with rfl | rfl | rfl <;> decide

theorem reserved_headerPart (name : Bytes) : reserved (headerPart name) = reserved name := by
  have plain : reservedNames.all fun known =>
      (known.map toLowerAscii).all fun c => c != sp && c != cr && c != lf && c != 0 := by decide +kernel
  unfold reserved
  rw [Bool.eq_iff_iff, List.any_eq_true, List.any_eq_true]
  refine exists_congr fun known => and_congr_right fun mem => ?_
  rw [nameEquals_headerPart (List.all_eq_true.mp plain known mem)]

theorem fieldName_numbered {line text : Bytes} (shape : Response.Numbered line text) (colon : text.contains (ch ':')) :
    Client.fieldName line = Client.fieldName text := by
  obtain ⟨digits, -, rfl⟩ := shape
  exact fieldName_append (List.contains_iff_mem.mp colon) digits

theorem computedLines_reserved (res : Response) (keepAlive : Int) :
    ∀ line ∈ res.computedLines keepAlive, reserved (Client.fieldName line) := by
  intro line mem
  obtain ⟨text, known, shape⟩ := res.mem_computedLines keepAlive mem
  have texts : (Response.framingTexts ++ Response.connectionTexts).all
      (fun text => text.contains (ch ':') && reserved (Client.fieldName text)) := by decide +kernel
  obtain ⟨colon, taken⟩ := Bool.and_eq_true_iff.mp (List.all_eq_true.mp texts text known)
  rwa [fieldName_numbered shape colon]

def framingName (name : Bytes) : Bool :=
  responseHeaderNameEquals name (bytes "Content-Length") || responseHeaderNameEquals name (bytes "Transfer-Encoding")

theorem connectionLines_framing (res : Response) (keepAlive : Int) :
    ∀ line ∈ res.connectionLines keepAlive, framingName (Client.fieldName line) = false := by
  intro line mem
  obtain ⟨text, known, shape⟩ := res.mem_connectionLines keepAlive mem
  have texts : Response.connectionTexts.all
      (fun text => text.contains (ch ':') && !framingName (Client.fieldName text)) := by decide +kernel
  obtain ⟨colon, other⟩ := Bool.and_eq_true_iff.mp (List.all_eq_true.mp texts text known)
  rw [fieldName_numbered shape colon]
  simpa using other

theorem filter_reserved {wanted : Bytes → Bool} (among : ∀ name, wanted name → reserved name) (fields : List Bytes) :
    fields.filter (fun line => wanted (Client.fieldName line)) =
      (fields.filter fun line => reserved (Client.fieldName line)).filter fun line => wanted (Client.fieldName line) := by
  rw [List.filter_filter]
  refine List.filter_congr fun line _ => ?_
  by_cases chosen : wanted (Client.fieldName line)
  · rw [chosen, among _ chosen, Bool.and_self]
  · simp [chosen]

theorem framingName_reserved (name : Bytes) (framing : framingName name) : reserved name := by
  simp only [framingName, reserved, reservedNames, List.any_cons, List.any_nil] at framing ⊢
  grind

theorem framingLines_length (res : Response) : res.framingLines.length ≤ 1 := by
  unfold Response.framingLines
  split_ifs <;> simp

def Response.OnlyComputed (res : Response) (keepAlive : Int) : Prop :=
  ∃ statusLine fields body, Client.readHead (res.toString keepAlive) = some (statusLine :: fields, body) ∧
    fields.filter (fun line => reserved (Client.fieldName line)) = res.computedLines keepAlive ∧
    (fields.filter fun line => framingName (Client.fieldName line)).length ≤ 1

theorem fieldLines_reserved (res : Response) :
    res.fieldLines.filter (fun line => reserved (Client.fieldName line)) = [] ↔
      ∀ field ∈ res.fields, ¬ disguised field.1 := by
  rw [List.filter_eq_nil_iff, Response.fieldLines, List.forall_mem_map]
  simp only [List.mem_filter, and_imp, fieldName_fieldLine, reserved_headerPart, disguised, Bool.and_eq_true, not_and]

theorem computedLines_filter (res : Response) (keepAlive : Int)
    (honest : res.fieldLines.filter (fun line => reserved (Client.fieldName line)) = []) :
    (res.fieldLines ++ res.computedLines keepAlive).filter (fun line => reserved (Client.fieldName line)) =
      res.computedLines keepAlive := by
  rw [List.filter_append, honest, List.filter_eq_self.mpr (computedLines_reserved res keepAlive), List.nil_append]

theorem framing_filter (res : Response) (keepAlive : Int) {wanted : Bytes → Bool}
    (framing : ∀ name, wanted name → framingName name)
    (honest : res.fieldLines.filter (fun line => reserved (Client.fieldName line)) = []) :
    (res.fieldLines ++ res.computedLines keepAlive).filter (fun line => wanted (Client.fieldName line)) =
      res.framingLines.filter fun line => wanted (Client.fieldName line) := by
  rw [filter_reserved fun name chosen => framingName_reserved name (framing name chosen),
    computedLines_filter res keepAlive honest, Response.computedLines, List.filter_append]
  have connection : (res.connectionLines keepAlive).filter (fun line => wanted (Client.fieldName line)) = [] := by
    refine List.filter_eq_nil_iff.mpr fun line mem chosen => ?_
    simpa [connectionLines_framing res keepAlive line mem] using framing _ chosen
  rw [connection, List.append_nil]

theorem framing_fields_computed (res : Response) (keepAlive : Int) :
    res.OnlyComputed keepAlive ↔ ∀ field ∈ res.fields, ¬ disguised field.1 := by
  rw [← fieldLines_reserved]
  constructor
  · rintro ⟨statusLine, fields, body, read, only, -⟩
    rw [readHead_toString] at read
    obtain ⟨⟨-, rfl⟩, -⟩ : (_ ∧ _ = fields) ∧ _ := by simpa using read
    rw [List.filter_append, List.filter_eq_self.mpr (computedLines_reserved res keepAlive)] at only
    simpa using only
  · intro honest
    refine ⟨_, _, _, readHead_toString res keepAlive, computedLines_filter res keepAlive honest, ?_⟩
    rw [framing_filter res keepAlive (fun _ framing => framing) honest]
    exact (List.length_filter_le _ _).trans (framingLines_length res)

-- The line feed of the key is sent as a space, and the space in front of the colon is dropped.
theorem line_feed_key_sent :
    ¬ Response.OnlyComputed
      { statusCode := 200, body := bytes "hello", fields := [(bytes "Content-Length\n", bytes "0")] } 0 := by
  rintro ⟨statusLine, fields, body, read, -, once⟩
  have sent : Client.readHead (Response.toString
      { statusCode := 200, body := bytes "hello", fields := [(bytes "Content-Length\n", bytes "0")] } 0) =
      some ([bytes "HTTP/1.1 200 OK", bytes "Content-Length : 0", bytes "Content-Length: 5", bytes "Connection: close"],
        bytes "hello") := by decide +kernel
  obtain ⟨⟨-, rfl⟩, -⟩ : (_ ∧ _ = fields) ∧ _ := by simpa using sent.symm.trans read
  exact absurd once (by decide +kernel)

inductive Setter where
  | setStatusCode (code : UInt16)
  | setContentLength (length : Nat)
  | setKeepAlive (seconds : Int)
  | setBody (text : Bytes)
  -- the map is the public base of a response
  | setFields (changed : Fields)
  deriving DecidableEq

def Setter.apply (res : Response) : Setter → Response
  | .setStatusCode code => { res with statusCode := code }
  | .setContentLength length => { res with contentLength := length, body := [] }
  | .setKeepAlive seconds => { res with keepAlive := seconds }
  | .setBody text => { res with body := text, contentLength := text.length }
  | .setFields changed => { res with fields := changed }

def Response.build (statusCode : UInt16) (body : Bytes) (fields : Fields) (setters : List Setter) : Response :=
  setters.foldl Setter.apply { statusCode := statusCode, body := body, fields := fields }

def bodySetLast (setters : List Setter) : Bool :=
  setters.foldl (fun last setter => match setter with
    | .setBody _ => true
    | .setContentLength _ => false
    | _ => last) true

theorem build_contentLength (statusCode : UInt16) (body : Bytes) (fields : Fields) {setters : List Setter}
    (last : bodySetLast setters) :
    (Response.build statusCode body fields setters).contentLength =
      (Response.build statusCode body fields setters).body.length := by
  induction setters using List.reverseRecOn with
  | nil => rfl
  | append_singleton setters setter ih =>
    simp only [bodySetLast, Response.build, List.foldl_append, List.foldl_cons, List.foldl_nil] at last ih ⊢
    cases setter <;> simp_all [Setter.apply]

def Response.sentStatus (res : Response) : Nat :=
  if (statusCodes.lookup res.status.toNat).isSome then res.status.toNat else 500

theorem lookup_decimal {table : List (Nat × String)} (numbers : table.all fun entry =>
    Client.decimal ((bytes entry.2).take 3) == some entry.1) (status : Nat) :
    Client.decimal ((bytes ((table.lookup status).getD "500 Internal Server Error")).take 3) =
      some (if (table.lookup status).isSome then status else 500) := by
  induction table with
  | nil =>
    have other : Client.decimal ((bytes "500 Internal Server Error").take 3) = some 500 := by decide +kernel
    simpa using other
  | cons entry table ih =>
    obtain ⟨here, rest⟩ := Bool.and_eq_true_iff.mp (List.all_cons ▸ numbers)
    rw [List.lookup_cons]
    split
    next same => simpa [beq_iff_eq.mp same] using here
    next => exact ih rest

theorem statusCodes_decimal : statusCodes.all fun entry => Client.decimal ((bytes entry.2).take 3) == some entry.1 := by
  decide +kernel

theorem statusCode_statusLine (res : Response) : Client.statusCode res.statusLine = some res.sentStatus := by
  have size : (bytes "HTTP/1.1 ").length = 9 := by decide
  rw [Client.statusCode, Response.statusLine, if_pos (by simp), List.drop_left' size]
  exact lookup_decimal statusCodes_decimal res.status.toNat

-- A client finds out where the body ends, and what it takes for the body is all that was sent.
def Response.SelfDelimiting (res : Response) (keepAlive : Int) : Prop :=
  ∃ received, Client.receive (res.toString keepAlive) = some received ∧ received.rest = [] ∧
    received.body = if Client.bodiless received.status then [] else res.body

def lengthName (name : Bytes) : Bool := responseHeaderNameEquals name (bytes "Content-Length")

theorem fieldValue_length (value : Nat) :
    Client.fieldValue (bytes "Content-Length: " ++ numberText value) = numberText value := by
  have digits : ∀ c ∈ numberText value, isOws c = false := by
    intro c mem
    have digit := mem_numberText mem
    unfold isOws
    by_contra blank
    have space : c = sp ∨ c = htab := or_iff_not_imp_left.mpr (by simpa using blank)
    rcases space with rfl | rfl <;> exact absurd digit (by decide)
  have start : (bytes "Content-Length: ").dropWhile (· ≠ ch ':') = [ch ':', sp] := by decide +kernel
  rw [Client.fieldValue, List.dropWhile_append, start, if_neg (by simp)]
  have trimmed : (([sp] ++ numberText value ++ []).dropWhile isOws).rdropWhile isOws = numberText value :=
    trim_append (by simp [isOws]) (by simp) (fun c first => digits c (List.mem_of_mem_head? first))
      (fun c last => digits c (List.mem_of_mem_getLast? last))
  simpa [trimOws] using trimmed

theorem contentLength_read (res : Response) (keepAlive : Int)
    (honest : res.fieldLines.filter (fun line => reserved (Client.fieldName line)) = []) :
    Client.contentLength (res.fieldLines ++ res.computedLines keepAlive) =
      if res.bodyLess ∨ res.contentLength = chunkedData then none else some res.contentLength := by
  have framing (name : Bytes) (length : lengthName name) : framingName name := by
    unfold lengthName at length
    simp [framingName, length]
  have chosen := framing_filter res keepAlive framing honest
  have chunked : lengthName (Client.fieldName (bytes "Transfer-Encoding: chunked")) = false := by decide +kernel
  have stated : lengthName (Client.fieldName (bytes "Content-Length: ")) := by decide +kernel
  have shown : Client.fieldName (bytes "Content-Length: " ++ numberText res.contentLength) =
      Client.fieldName (bytes "Content-Length: ") := fieldName_append (by decide) _
  unfold Client.contentLength
  simp only [lengthName] at chosen chunked stated
  rw [chosen, Response.framingLines]
  by_cases none : res.bodyLess
  · simp [none]
  · by_cases endless : res.contentLength = chunkedData
    · simp [none, endless, chunked]
    · simp [none, endless, shown, stated, fieldValue_length, decimal_numberText]

def plainName (name : Bytes) : Bool := name.all fun c => c != ch ':' && 0x20 < c && c != 0x7f

theorem plainName_honest {name : Bytes} (plain : plainName name) : ¬ disguised name := by
  have bytes_ : ∀ c ∈ name, (c ≠ ch ':') ∧ 0x20 < c := by
    intro c mem
    have := List.all_eq_true.mp plain c mem
    grind
  have shown : shownName name = name := by
    rw [shownName, List.takeWhile_eq_self_iff.mpr fun c mem => by simpa using (bytes_ c mem).1,
      List.rdropWhile_eq_self_iff]
    intro filled
    have visible := (bytes_ _ (List.getLast_mem filled)).2
    generalize name.getLast filled = c at visible
    simp only [blank, isOws, Bool.or_eq_true, beq_iff_eq, not_or]
    refine ⟨⟨⟨⟨?_, ?_⟩, ?_⟩, ?_⟩, ?_⟩ <;> rintro rfl <;> exact absurd visible (by decide)
  simp [disguised, shown]

theorem lookup_unknown {status : Nat} (low : 102 ≤ status) (high : status < 200) : statusCodes.lookup status = none := by
  have gap : statusCodes.all fun entry => !(102 ≤ entry.1 && entry.1 < 200) := by decide +kernel
  refine List.lookup_eq_none_iff.mpr fun entry mem => ?_
  have := List.all_eq_true.mp gap entry mem
  grind

theorem bodyLess_iff (res : Response) :
    res.bodyLess ↔ (100 ≤ res.statusCode.toNat ∧ res.statusCode.toNat < 200) ∨ res.statusCode.toNat = 204 := by
  unfold Response.bodyLess Response.informational Response.status
  by_cases zero : res.statusCode = 0
  · simp [zero]
  · simp [zero, UInt16.le_iff_toNat_le, UInt16.lt_iff_toNat_lt, ← UInt16.toNat_inj]

theorem sentStatus_cases (res : Response) :
    (102 ≤ res.statusCode ∧ res.statusCode ≤ 199 ∧ Client.bodiless res.sentStatus = false ∧ res.bodyLess) ∨
    (res.statusCode = 304 ∧ Client.bodiless res.sentStatus ∧ res.bodyLess = false) ∨
    (¬ (102 ≤ res.statusCode ∧ res.statusCode ≤ 199) ∧ res.statusCode ≠ 304 ∧
      Client.bodiless res.sentStatus = res.bodyLess) := by
  have server := bodyLess_iff res
  have code : res.status.toNat = if res.statusCode.toNat = 0 then 500 else res.statusCode.toNat := by
    simp only [Response.status, ← UInt16.toNat_inj, UInt16.toNat_zero]
    split_ifs <;> rfl
  simp only [UInt16.le_iff_toNat_le, ← UInt16.toNat_inj, ne_eq]
  unfold Response.sentStatus
  rw [code]
  generalize res.statusCode.toNat = n at server
  by_cases zero : n = 0
  · subst zero
    refine .inr (.inr ⟨by decide, by decide, ?_⟩)
    rw [Bool.eq_iff_iff, server]
    decide +kernel
  · rw [if_neg zero]
    by_cases unknown : 102 ≤ n ∧ n < 200
    · rw [lookup_unknown unknown.1 unknown.2]
      exact .inl ⟨unknown.1, Nat.le_of_lt_succ unknown.2, rfl, server.mpr (.inl (by omega))⟩
    · by_cases notModified : n = 304
      · subst notModified
        refine .inr (.inl ⟨rfl, by decide +kernel, ?_⟩)
        simpa using server.not.mpr (by omega)
      · refine .inr (.inr ⟨fun range => unknown ⟨range.1, Nat.lt_succ_of_le range.2⟩, notModified, ?_⟩)
        rw [Bool.eq_iff_iff, server]
        by_cases known : (statusCodes.lookup n).isSome
        · simp [known, Client.bodiless, notModified]
        · -- what has no body but is not known would be one of these three
          have three : n ≠ 100 ∧ n ≠ 101 ∧ n ≠ 204 := by
            refine ⟨?_, ?_, ?_⟩ <;> rintro rfl <;> exact known (by decide +kernel)
          simp [known, Client.bodiless]
          omega

theorem receive_toString (res : Response) (keepAlive : Int) :
    Client.receive (res.toString keepAlive) =
      (Client.bodyLength res.sentStatus (res.fieldLines ++ res.computedLines keepAlive)).bind fun length =>
        if length ≤ res.sentBody.length then
          some ⟨res.sentStatus, res.sentBody.take length, res.sentBody.drop length⟩
        else none := by
  simp [Client.receive, readHead_toString, statusCode_statusLine]

theorem selfDelimiting_iff (res : Response) (keepAlive : Int) (whole : res.contentLength = res.body.length)
    (sized : res.body.length < chunkedData) (names : ∀ field ∈ res.fields, plainName field.1) :
    res.SelfDelimiting keepAlive ↔
      ¬ (102 ≤ res.statusCode ∧ res.statusCode ≤ 199) ∧ (res.statusCode = 304 → res.body = []) := by
  have honest := (fieldLines_reserved res).mpr fun field mem => plainName_honest (names field mem)
  have length := contentLength_read res keepAlive honest
  have finite : res.body.length ≠ chunkedData := by omega
  unfold Response.SelfDelimiting
  rw [receive_toString, Client.bodyLength, length]
  rcases sentStatus_cases res with ⟨low, high, client, server⟩ | ⟨code, client, server⟩ | ⟨known, other, same⟩
  · simp [client, server, low, high]
  · simp [client, server, code, Response.sentBody]
  · cases server : res.bodyLess
    · simp [same, server, finite, known, other, whole, Response.sentBody]
    · simp [same, server, known, other, Response.sentBody]

/-- A client that reads the response by its own status line gets all of it, unless the status is one of these. -/
theorem response_self_delimiting (statusCode : UInt16) (body : Bytes) (fields : Fields) (setters : List Setter)
    (keepAlive : Int) (last : bodySetLast setters)
    (sized : (Response.build statusCode body fields setters).body.length < chunkedData)
    (names : ∀ field ∈ (Response.build statusCode body fields setters).fields, plainName field.1) :
    let res := Response.build statusCode body fields setters
    res.SelfDelimiting keepAlive ↔
      ¬ (102 ≤ res.statusCode ∧ res.statusCode ≤ 199) ∧ (res.statusCode = 304 → res.body = []) :=
  selfDelimiting_iff _ keepAlive (build_contentLength statusCode body fields last) sized names

theorem response_self_delimiting_notFound :
    (Response.build 200 [] [(bytes "X-Id", bytes "a: b")]
      [.setContentLength 7, .setStatusCode 404, .setBody (bytes "gone")]).SelfDelimiting 5 :=
  (response_self_delimiting 200 [] [(bytes "X-Id", bytes "a: b")]
    [.setContentLength 7, .setStatusCode 404, .setBody (bytes "gone")] 5 (by decide +kernel) (by decide +kernel)
    (by decide +kernel)).mpr (by decide +kernel)

-- The first is sent as a 500 without a length; of the second the client takes the body for the next response.
theorem processing_and_notModified_undelimited :
    ¬ (Response.build 102 (bytes "x") [] []).SelfDelimiting 5 ∧
      ¬ (Response.build 304 (bytes "x") [] []).SelfDelimiting 5 := by
  constructor
  · rintro ⟨received, read, -⟩
    have endless : Client.receive ((Response.build 102 (bytes "x") [] []).toString 5) = none := by decide +kernel
    simp [endless] at read
  · rintro ⟨received, read, nothing, -⟩
    have left : Client.receive ((Response.build 304 (bytes "x") [] []).toString 5) = some ⟨304, [], bytes "x"⟩ := by
      decide +kernel
    obtain rfl : _ = received := by simpa [left] using read
    exact absurd nothing (by decide)

end Dracon
