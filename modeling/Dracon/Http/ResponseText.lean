import Dracon.Http.Message
import Dracon.Shared.Bisection
import Dracon.Shared.Lines

set_option autoImplicit false

namespace Dracon

open Shared

def reservedNames : List Bytes :=
  [bytes "Content-Length", bytes "Transfer-Encoding", bytes "Keep-Alive", bytes "Connection"]

def reserved (name : Bytes) : Bool := reservedNames.any (responseHeaderNameEquals name)

def statusText (status : UInt16) : Bytes :=
  bytes ((statusCodes.lookup status.toNat).getD "500 Internal Server Error")

def fieldLine (field : Bytes × Bytes) : Bytes := headerPart field.1 ++ bytes ": " ++ headerPart field.2

namespace Response

variable (res : Response) (keepAlive : Int)

def status : UInt16 := if res.statusCode = 0 then 500 else res.statusCode

def informational : Bool := 100 ≤ res.status && res.status < 200

def bodyLess : Bool := res.informational || res.status == 204

def statusLine : Bytes := bytes "HTTP/1.1 " ++ statusText res.status

def fieldLines : List Bytes := (res.fields.filter fun field => !reserved field.1).map fieldLine

def framingLines : List Bytes :=
  if res.bodyLess then []
  else if res.contentLength = chunkedData then [bytes "Transfer-Encoding: chunked"]
  else [bytes "Content-Length: " ++ numberText res.contentLength]

def connectionLines : List Bytes :=
  -- -1 leaves the choice to the response
  let seconds := if keepAlive = -1 then res.keepAlive else keepAlive
  if res.informational then []
  else if 0 < seconds then [bytes "Keep-Alive: timeout=" ++ numberText seconds.toNat, bytes "Connection: keep-alive"]
  else [bytes "Connection: close"]

def computedLines : List Bytes := res.framingLines ++ res.connectionLines keepAlive

def sentBody : Bytes := if res.bodyLess then [] else res.body

def headLines : List Bytes := res.statusLine :: (res.fieldLines ++ res.computedLines keepAlive)

theorem toString_eq :
    res.toString keepAlive =
      (res.headLines keepAlive).flatMap (· ++ crlf) ++ (crlf ++ res.sentBody) := by
  have kept : res.fieldLines.flatMap (· ++ crlf) =
      (res.fields.filter fun kv => !(responseHeaderNameEquals kv.1 (bytes "Content-Length")
        || responseHeaderNameEquals kv.1 (bytes "Transfer-Encoding")
        || responseHeaderNameEquals kv.1 (bytes "Keep-Alive")
        || responseHeaderNameEquals kv.1 (bytes "Connection"))).flatMap
          fun kv => headerPart kv.1 ++ bytes ": " ++ headerPart kv.2 ++ crlf := by
    simp only [fieldLines, List.flatMap_map, fieldLine, reserved, reservedNames, List.any_cons, List.any_nil,
      Bool.or_false, Bool.or_assoc]
  have framing : res.framingLines.flatMap (· ++ crlf) =
      if res.bodyLess then []
      else if res.contentLength = chunkedData then bytes "Transfer-Encoding: chunked" ++ crlf
      else bytes "Content-Length: " ++ numberText res.contentLength ++ crlf := by
    unfold framingLines
    split_ifs <;> simp
  have connection : (res.connectionLines keepAlive).flatMap (· ++ crlf) =
      let seconds := if keepAlive = -1 then res.keepAlive else keepAlive
      if res.informational then []
      else if 0 < seconds then bytes "Keep-Alive: timeout=" ++ numberText seconds.toNat ++ crlf
        ++ bytes "Connection: keep-alive" ++ crlf
      else bytes "Connection: close" ++ crlf := by
    unfold connectionLines
    dsimp only
    split_ifs <;> simp
  have first : bytes "HTTP/1.1 " ++ statusCodeString res.status = res.statusLine ++ crlf := by
    simp [statusLine, statusCodeString, statusText]
  rw [headLines, computedLines, List.flatMap_cons, List.flatMap_append, List.flatMap_append, kept, framing,
    connection, ← first]
  simp only [Response.toString, bodyLess, informational, status, sentBody, List.append_assoc]
  congr 1

end Response

def clean (line : Bytes) : Bool := line.all fun c => c != cr && c != lf && c != 0

theorem clean_iff {line : Bytes} : clean line ↔ ∀ c ∈ line, c ≠ cr ∧ c ≠ lf ∧ c ≠ 0 := by
  simp [clean, and_assoc]

theorem clean_append {first second : Bytes} (left : clean first) (right : clean second) : clean (first ++ second) := by
  unfold clean at *
  rw [List.all_append, left, right, Bool.and_self]

theorem headerPart_clean (part : Bytes) : clean (headerPart part) := by
  refine clean_iff.mpr fun c mem => ?_
  obtain ⟨raw, -, rfl⟩ := List.mem_map.mp mem
  split_ifs with unsafeByte
  · decide
  · simpa only [not_or] using unsafeByte

theorem ch_digit {digit : Char} (decimal : digit.isDigit) :
    isDigit (ch digit) ∧ digitValue (ch digit) = digit.toNat - '0'.toNat := by
  have range : 48 ≤ digit.toNat ∧ digit.toNat ≤ 57 := by
    simpa [Char.isDigit, UInt32.le_iff_toNat_le] using decimal
  unfold ch
  generalize digit.toNat = n at range
  obtain ⟨low, high⟩ := range
  interval_cases n <;> decide

theorem mem_numberText {value : Nat} {c : Byte} (mem : c ∈ numberText value) : isDigit c := by
  obtain ⟨digit, among, rfl⟩ := List.mem_map.mp mem
  exact (ch_digit (Nat.isDigit_of_mem_toDigits (b := 10) (by decide) (by decide) among)).1

theorem numberText_clean (value : Nat) : clean (numberText value) := by
  refine clean_iff.mpr fun c mem => ?_
  have digit := mem_numberText mem
  refine ⟨?_, ?_, ?_⟩ <;> rintro rfl <;> exact absurd digit (by decide)

theorem lookup_clean {table : List (Nat × String)} {unknown : String} (known : table.all fun entry => clean (bytes entry.2))
    (other : clean (bytes unknown)) (status : Nat) : clean (bytes ((table.lookup status).getD unknown)) := by
  induction table with
  | nil => simpa using other
  | cons entry table ih =>
    obtain ⟨here, rest⟩ := Bool.and_eq_true_iff.mp (List.all_cons ▸ known)
    rw [List.lookup_cons]
    split
    next => exact here
    next => exact ih rest

theorem statusCodes_clean : statusCodes.all fun entry => clean (bytes entry.2) := by decide +kernel

theorem statusText_clean (status : UInt16) : clean (statusText status) := by
  have other : clean (bytes "500 Internal Server Error") := by decide +kernel
  exact lookup_clean statusCodes_clean other status.toNat

namespace Response

variable (res : Response) (keepAlive : Int)

-- What `to_string` writes itself: fixed texts, some of them with a number behind.
def Numbered (line text : Bytes) : Prop := ∃ digits, (digits = [] ∨ ∃ value, digits = numberText value) ∧ line = text ++ digits

theorem numbered_self (text : Bytes) : Numbered text text := ⟨[], .inl rfl, by simp⟩

theorem numbered_number (text : Bytes) (value : Nat) : Numbered (text ++ numberText value) text :=
  ⟨_, .inr ⟨value, rfl⟩, rfl⟩

def framingTexts : List Bytes := [bytes "Transfer-Encoding: chunked", bytes "Content-Length: "]

def connectionTexts : List Bytes :=
  [bytes "Keep-Alive: timeout=", bytes "Connection: keep-alive", bytes "Connection: close"]

theorem mem_framingLines {line : Bytes} (mem : line ∈ res.framingLines) : ∃ text ∈ framingTexts, Numbered line text := by
  unfold framingLines at mem
  split_ifs at mem
  · simp at mem
  · obtain rfl := List.mem_singleton.mp mem
    exact ⟨_, by simp [framingTexts], numbered_self _⟩
  · obtain rfl := List.mem_singleton.mp mem
    exact ⟨_, by simp [framingTexts], numbered_number _ _⟩

theorem mem_connectionLines {line : Bytes} (mem : line ∈ res.connectionLines keepAlive) :
    ∃ text ∈ connectionTexts, Numbered line text := by
  unfold connectionLines at mem
  generalize (if keepAlive = -1 then res.keepAlive else keepAlive) = seconds at mem
  dsimp only at mem
  split_ifs at mem
  · simp at mem
  · rcases List.mem_pair.mp mem with rfl | rfl
    · exact ⟨_, by simp [connectionTexts], numbered_number _ _⟩
    · exact ⟨_, by simp [connectionTexts], numbered_self _⟩
  · obtain rfl := List.mem_singleton.mp mem
    exact ⟨_, by simp [connectionTexts], numbered_self _⟩

theorem mem_computedLines {line : Bytes} (mem : line ∈ res.computedLines keepAlive) :
    ∃ text ∈ framingTexts ++ connectionTexts, Numbered line text := by
  rcases List.mem_append.mp mem with framing | connection
  · obtain ⟨text, known, shape⟩ := mem_framingLines res framing
    exact ⟨text, List.mem_append_left _ known, shape⟩
  · obtain ⟨text, known, shape⟩ := mem_connectionLines res keepAlive connection
    exact ⟨text, List.mem_append_right _ known, shape⟩

theorem computedLines_clean : ∀ line ∈ res.computedLines keepAlive, line ≠ [] ∧ clean line := by
  intro line mem
  obtain ⟨text, known, digits, number, rfl⟩ := mem_computedLines res keepAlive mem
  have texts : (framingTexts ++ connectionTexts).all (fun text => text != [] && clean text) := by decide +kernel
  obtain ⟨filled, fixed⟩ := Bool.and_eq_true_iff.mp (List.all_eq_true.mp texts text known)
  refine ⟨fun nothing => ?_, clean_append fixed ?_⟩
  · simp_all
  obtain rfl | ⟨value, rfl⟩ := number
  · rfl
  · exact numberText_clean value

theorem headLines_clean : ∀ line ∈ res.headLines keepAlive, line ≠ [] ∧ clean line := by
  intro line mem
  simp only [headLines, List.mem_cons, List.mem_append, fieldLines, List.mem_map] at mem
  rcases mem with rfl | ⟨field, -, rfl⟩ | computed
  · exact ⟨by simp [statusLine, bytes], clean_append (by decide +kernel) (statusText_clean _)⟩
  · refine ⟨by simp [fieldLine, bytes], ?_⟩
    exact clean_append (clean_append (headerPart_clean _) (by decide +kernel)) (headerPart_clean _)
  · exact computedLines_clean res keepAlive line computed

theorem headLines_carriage : ∀ line ∈ res.headLines keepAlive, line ≠ [] ∧ cr ∉ line := by
  intro line mem
  obtain ⟨filled, fixed⟩ := headLines_clean res keepAlive line mem
  exact ⟨filled, fun carriage => (clean_iff.mp fixed cr carriage).1 rfl⟩

theorem toString_cut :
    ∃ head, head ++ crlf = (res.headLines keepAlive).flatMap (· ++ crlf) ∧
      cutAt (crlf ++ crlf) (res.toString keepAlive) = some (head, res.sentBody) := by
  rw [toString_eq]
  exact cutAt_emptyLine (by decide : cr ∉ [lf]) (by simp [headLines])
    (headLines_carriage res keepAlive) res.sentBody

end Response

-- equal up to the case of ASCII letters
def SameLetter (c d : Byte) : Prop :=
  c = d ∨ ch 'A' ≤ c ∧ c ≤ ch 'Z' ∧ d = c + 32 ∨ ch 'A' ≤ d ∧ d ≤ ch 'Z' ∧ c = d + 32

def SameName (name other : Bytes) : Prop := List.Forall₂ SameLetter name other

instance (c d : Byte) : Decidable (SameLetter c d) := inferInstanceAs (Decidable (_ ∨ _))

instance (name other : Bytes) : Decidable (SameName name other) := inferInstanceAs (Decidable (List.Forall₂ _ _ _))

theorem sameLetter_iff (c d : Byte) : SameLetter c d ↔ toLowerAscii c = toLowerAscii d := by
  simp only [SameLetter, toLowerAscii, show ch 'A' = 65 from rfl, show ch 'Z' = 90 from rfl, UInt8.le_iff_toNat_le,
    ← UInt8.toNat_inj, UInt8.toNat_add]
  have := c.toNat_lt
  have := d.toNat_lt
  split_ifs <;> simp_all <;> omega

theorem sameName_iff (name other : Bytes) : SameName name other ↔ responseHeaderNameEquals name other := by
  rw [responseHeaderNameEquals, beq_iff_eq, ← List.forall₂_eq_eq_eq, List.forall₂_map_left_iff, List.forall₂_map_right_iff]
  exact ⟨.imp fun c d => (sameLetter_iff c d).mp, .imp fun c d => (sameLetter_iff c d).mpr⟩

-- every byte is shown as it is, but those that could end a line
def Sanitized (raw shown : Bytes) : Prop :=
  List.Forall₂ (fun c d => d = c ∧ c ≠ cr ∧ c ≠ lf ∧ c ≠ 0 ∨ d = sp ∧ (c = cr ∨ c = lf ∨ c = 0)) raw shown

theorem sanitized_iff (raw shown : Bytes) : Sanitized raw shown ↔ shown = headerPart raw := by
  have byte (c d : Byte) : (d = c ∧ c ≠ cr ∧ c ≠ lf ∧ c ≠ 0 ∨ d = sp ∧ (c = cr ∨ c = lf ∨ c = 0)) ↔
      (if c = cr ∨ c = lf ∨ c = 0 then sp else c) = d := by
    split_ifs with ends <;> grind
  rw [eq_comm, headerPart, ← List.forall₂_eq_eq_eq, List.forall₂_map_left_iff]
  exact ⟨.imp fun c d => (byte c d).mp, .imp fun c d => (byte c d).mpr⟩

theorem fieldLines_spec (res : Response) :
    List.Forall₂ (fun field line => ∃ name value, Sanitized field.1 name ∧ Sanitized field.2 value ∧
        line = name ++ bytes ": " ++ value)
      (res.fields.filter fun field => ∀ name ∈ reservedNames, ¬ SameName field.1 name) res.fieldLines := by
  have same : (res.fields.filter fun field => ∀ name ∈ reservedNames, ¬ SameName field.1 name) =
      res.fields.filter fun field => !reserved field.1 := by
    refine List.filter_congr fun field _ => ?_
    rw [Bool.eq_iff_iff]
    simp [reserved, sameName_iff]
  rw [same, Response.fieldLines, List.forall₂_map_right_iff, List.forall₂_same]
  exact fun field _ => ⟨_, _, (sanitized_iff _ _).mpr rfl, (sanitized_iff _ _).mpr rfl, rfl⟩

/-- Nothing in the map or in the body of a response can add a line to its head, or end it. -/
theorem response_not_split (res : Response) (keepAlive : Int) :
    ∃ head, res.toString keepAlive = head ++ crlf ++ crlf ++ res.sentBody ∧
      cutAt (crlf ++ crlf) (res.toString keepAlive) = some (head, res.sentBody) ∧
      lines cr [lf] (head ++ crlf ++ crlf) =
        res.statusLine :: (res.fieldLines ++ res.framingLines ++ res.connectionLines keepAlive) ++ [[]] ∧
      (∀ line ∈ lines cr [lf] (head ++ crlf ++ crlf), clean line) ∧
      List.Forall₂ (fun field line => ∃ name value, Sanitized field.1 name ∧ Sanitized field.2 value ∧
          line = name ++ bytes ": " ++ value)
        (res.fields.filter fun field => ∀ name ∈ reservedNames, ¬ SameName field.1 name) res.fieldLines := by
  obtain ⟨head, split, found⟩ := res.toString_cut keepAlive
  have ended : head ++ crlf ++ crlf = (res.headLines keepAlive ++ [[]]).flatMap (· ++ crlf) := by simp [split]
  have read : lines cr [lf] (head ++ crlf ++ crlf) = res.headLines keepAlive ++ [[]] := by
    rw [ended]
    refine lines_flatMap fun line mem => ?_
    rcases List.mem_append.mp mem with inside | last
    · exact (res.headLines_carriage keepAlive line inside).2
    · simp [List.mem_singleton.mp last]
  refine ⟨head, ?_, found, ?_, ?_, fieldLines_spec res⟩
  · rw [res.toString_eq, ← split]
    simp only [List.append_assoc]
  · rw [read]
    simp [Response.headLines, Response.computedLines]
  · intro line mem
    rw [read] at mem
    rcases List.mem_append.mp mem with inside | last
    · exact (res.headLines_clean keepAlive line inside).2
    · simp [List.mem_singleton.mp last, clean]

def statusCodeFound (status : UInt16) : Bytes :=
  bytes ((sortedLookup statusCodes status.toNat).getD "500 Internal Server Error") ++ crlf

theorem statusCodes_sorted : statusCodes.Pairwise fun a b => a.1 < b.1 := by decide

theorem statusCodes_numbered : ∀ entry ∈ statusCodes, (numberText entry.1 ++ [sp]).isPrefixOf (bytes entry.2) :=
  List.all_eq_true.mp (by decide +kernel)

/-- The search by halves finds the line of every code of the table, which starts with the code, and that of 500 else. -/
theorem status_code_found (status : UInt16) :
    statusCodeFound status = statusCodeString status ∧
      numberText (if (statusCodes.lookup status.toNat).isSome then status.toNat else 500) ++ [sp] <+:
        statusCodeFound status := by
  have found : statusCodeFound status = statusCodeString status := by
    rw [statusCodeFound, sortedLookup_eq statusCodes_sorted]
    rfl
  refine ⟨found, ?_⟩
  rw [found, statusCodeString]
  apply List.IsPrefix.trans _ (List.prefix_append _ _)
  cases known : statusCodes.lookup status.toNat with
  | none =>
    have spelled : numberText 500 ++ [sp] ++ bytes "Internal Server Error" = bytes "500 Internal Server Error" := by decide
    exact ⟨_, spelled⟩
  | some text =>
    obtain ⟨before, behind, table, -⟩ := List.lookup_eq_some_iff.mp known
    have listed : (status.toNat, text) ∈ statusCodes := by simp [table]
    exact List.isPrefixOf_iff_prefix.mp (statusCodes_numbered _ listed)

end Dracon
