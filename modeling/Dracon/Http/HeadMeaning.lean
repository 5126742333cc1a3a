import Dracon.Http.HeadAcceptance

set_option autoImplicit false

namespace Dracon

open Shared

-- the trimmed values of the lines of one key, in order
def valuesOf (fields : List Field) (key : Bytes) : List Bytes :=
  (fields.filter fun field => canonicalName field.name = key).map Field.value

def combined (key : Bytes) (values : List Bytes) : Option Bytes :=
  if key = bytes "Content-Length" then values.head?
  else if values = [] then none else some ((bytes ", ").intercalate values)

def Asks (fields : List Field) (option : String) : Prop :=
  ∃ field ∈ fields, field.Is "Connection" ∧ ∃ element ∈ elements field.value, iequals element (bytes option)

section Names

theorem canonicalName_lower (name : Bytes) : (canonicalName name).map toLowerAscii = name.map toLowerAscii :=
  (canonicalFrom_lower true name).2

theorem canonicalName_inj (a b : Bytes) : canonicalName a = canonicalName b ↔ iequals a b := by
  rw [iequals, beq_iff_eq]
  constructor
  · intro same
    rw [← canonicalName_lower a, same, canonicalName_lower]
  · intro same
    rw [canonicalName, ← (canonicalFrom_lower true a).1, same, (canonicalFrom_lower true b).1, canonicalName]

theorem canonicalName_idem (name : Bytes) : canonicalName (canonicalName name) = canonicalName name := by
  rw [canonicalName_inj, iequals, canonicalName_lower, beq_self_eq_true]

theorem Field.is_connection {field : Field} :
    canonicalName field.name = bytes "Connection" ↔ field.Is "Connection" :=
  canonicalName_eq (by decide)

end Names

section Stored

variable {p p' : Parser} {req req' : Request} {key value : Bytes}

theorem find_update (fields : Fields) (key other : Bytes) (f : Bytes → Bytes) :
    Fields.find (fields.map fun kv => if kv.1 = key then (kv.1, f kv.2) else kv) other =
      if other = key then (fields.find key).map f else fields.find other := by
  induction fields with
  | nil => simp [Fields.find]
  | cons kv fields ih =>
    simp only [Fields.find, List.map_cons, List.find?_cons] at ih ⊢
    grind

theorem find_addField (req : Request) (key value other : Bytes) :
    (req.addField key value).fields.find other =
      if other = key then some ((req.fields.find key).elim value (· ++ bytes ", " ++ value))
      else req.fields.find other := by
  unfold Request.addField
  by_cases present : req.fields.any fun kv => kv.1 = key
  · have found : (req.fields.find key).isSome := by
      simpa [Fields.find, List.find?_isSome] using present
    obtain ⟨old, found⟩ := Option.isSome_iff_exists.mp found
    have updated := find_update req.fields key other (· ++ bytes ", " ++ value)
    rw [found] at updated ⊢
    rw [if_pos present]
    exact updated
  · have absent (kv : Bytes × Bytes) (mem : kv ∈ req.fields) : kv.1 ≠ key := fun same =>
      present (List.any_eq_true.mpr ⟨kv, mem, by simpa using same⟩)
    have missing : req.fields.find key = none := by
      simpa [Fields.find] using absent
    rw [if_neg present, missing]
    by_cases same : other = key
    · have none : req.fields.find? (fun kv => kv.1 = key) = none := by
        simpa using absent
      simp [Fields.find, same, List.find?_append, none]
    · have differs : ¬ key = other := fun equal => same equal.symm
      simp [Fields.find, same, List.find?_append, differs]

theorem storeField_req (stored : storeField p key value req = .ok (p', req')) :
    req' = if key = bytes "Content-Length" ∧ p.hasContentLength then req else req.addField key value := by
  unfold storeField at stored
  split_ifs at stored with length coding connection
  · cases result : contentLengthField p value with
    | error e => simp [result] at stored
    | ok r =>
      obtain ⟨n, -, -, -, rfl⟩ := contentLengthField_ok.mp result
      rw [result] at stored
      cases known : p.hasContentLength <;> simp_all
  · cases result : transferEncodingField p value <;> simp_all
  · simp_all
  · simp_all

theorem connectionField_options (p : Parser) (value : Bytes) :
    (connectionField p value).http11 = p.http11 ∧
    ((connectionField p value).close ↔ p.close ∨ ∃ element ∈ elements value, iequals element (bytes "close")) ∧
    ((connectionField p value).keepAlive ↔
      p.keepAlive ∨ ∃ element ∈ elements value, iequals element (bytes "keep-alive")) := by
  rw [connectionField, forEachToken_elements]
  induction elements value generalizing p with
  | nil => simp
  | cons element rest ih =>
    have apart (close : iequals element (bytes "close")) : iequals element (bytes "keep-alive") = false := by
      rw [iequals, beq_iff_eq] at close
      rw [iequals, close]
      decide
    rw [List.foldl_cons]
    obtain ⟨version, close, keepAlive⟩ := ih _
    rw [version, close, keepAlive]
    split_ifs with isClose isKeep
    · simp [isClose, apart isClose]
    · simp [isClose, isKeep]
    · simp [isClose, isKeep]

theorem storeField_options (stored : storeField p key value req = .ok (p', req')) :
    p'.http11 = p.http11 ∧
    (p'.close ↔ p.close ∨ key = bytes "Connection" ∧ ∃ element ∈ elements value, iequals element (bytes "close")) ∧
    (p'.keepAlive ↔
      p.keepAlive ∨ key = bytes "Connection" ∧ ∃ element ∈ elements value, iequals element (bytes "keep-alive")) := by
  unfold storeField at stored
  split_ifs at stored with length coding connection
  · have other : bytes "Content-Length" ≠ bytes "Connection" := by decide
    cases result : contentLengthField p value with
    | error e => simp [result] at stored
    | ok r =>
      obtain ⟨n, -, -, -, rfl⟩ := contentLengthField_ok.mp result
      rw [result] at stored
      cases known : p.hasContentLength <;> simp only [known, Bool.not_false, Bool.not_true] at stored <;>
        cases stored <;> simp [length, other]
  · have other : bytes "Transfer-Encoding" ≠ bytes "Connection" := by decide
    cases result : transferEncodingField p value with
    | error e => simp [result] at stored
    | ok q =>
      obtain ⟨-, -, rfl⟩ := transferEncodingField_ok.mp result
      rw [result] at stored
      cases stored
      simp [coding, other]
  · cases stored
    simpa [connection] using connectionField_options p value
  · cases stored
    simp [connection]

end Stored

structure Means (p : Parser) (req : Request) (http11 : Bool) (fields : List Field) : Prop where
  tracks : Tracks p fields
  values : ∀ key, req.fields.find key = combined key (valuesOf fields key)
  distinct : (req.fields.map Prod.fst).Nodup
  untouched : req.limit = ⟨false, 0⟩ ∧ req.delivered = []
  http11 : p.http11 = http11
  close : p.close ↔ Asks fields "close"
  keepAlive : p.keepAlive ↔ Asks fields "keep-alive"

inductive Stores : Parser → Request → List Field → Parser → Request → Prop
  | nil (p : Parser) (req : Request) : Stores p req [] p req
  | cons {p q p' : Parser} {req r req' : Request} {field : Field} {fields : List Field} :
      p.headers + 1 ≤ 100 →
      storeField { p with headers := p.headers + 1 } (canonicalName field.name) field.value req = .ok (q, r) →
      Stores q r fields p' req' → Stores p req (field :: fields) p' req'

section Run

variable {p p' : Parser} {req req' : Request} {http11 : Bool} {field : Field} {fields done : List Field}

theorem Asks.snoc {option : String} :
    Asks (done ++ [field]) option ↔
      Asks done option ∨ field.Is "Connection" ∧ ∃ element ∈ elements field.value, iequals element (bytes option) := by
  simp [Asks, or_and_right, exists_or]

theorem valuesOf_snoc (done : List Field) (field : Field) (key : Bytes) :
    valuesOf (done ++ [field]) key =
      valuesOf done key ++ if canonicalName field.name = key then [field.value] else [] := by
  simp only [valuesOf, List.filter_append, List.map_append]
  split_ifs with same <;> simp [same]

theorem intercalate_snoc {sep : Bytes} {values : List Bytes} (filled : values ≠ []) (value : Bytes) :
    sep.intercalate (values ++ [value]) = sep.intercalate values ++ sep ++ value := by
  induction values with
  | nil => exact absurd rfl filled
  | cons first rest ih =>
    rcases rest with - | ⟨second, rest⟩
    · simp [List.intercalate_cons_cons]
    · rw [List.cons_append, List.intercalate_cons_of_ne_nil (by simp), ih (by simp), List.intercalate_cons_cons]
      simp only [List.append_assoc]

theorem combined_snoc {key : Bytes} (other : key ≠ bytes "Content-Length") (values : List Bytes) (value : Bytes) :
    combined key (values ++ [value]) =
      some ((combined key values).elim value (· ++ bytes ", " ++ value)) := by
  simp only [combined, if_neg other]
  by_cases empty : values = []
  · simp [empty]
  · simp [empty, intercalate_snoc empty]

theorem Tracks.valuesOf_length (tracks : Tracks p done) :
    p.hasContentLength ↔ valuesOf done (bytes "Content-Length") ≠ [] := by
  simp [tracks.known, valuesOf, Field.is_contentLength]

theorem addField_keys (req : Request) (key value : Bytes) :
    (req.addField key value).fields.map Prod.fst =
      if key ∈ req.fields.map Prod.fst then req.fields.map Prod.fst else req.fields.map Prod.fst ++ [key] := by
  have present : (req.fields.any fun kv => kv.1 = key) ↔ key ∈ req.fields.map Prod.fst := by simp
  unfold Request.addField
  simp only [present]
  split_ifs
  · simp only [List.map_map]
    congr 1
    funext kv
    simp only [Function.comp_apply]
    split_ifs <;> rfl
  · simp

theorem Means.values_store (means : Means p req http11 done) (field : Field) (key : Bytes) :
    (if canonicalName field.name = bytes "Content-Length" ∧ p.hasContentLength then req
      else req.addField (canonicalName field.name) field.value).fields.find key =
      combined key (valuesOf (done ++ [field]) key) := by
  have known := means.tracks.valuesOf_length
  rw [valuesOf_snoc]
  by_cases same : canonicalName field.name = key
  · by_cases length : key = bytes "Content-Length"
    · -- the first value stays, and it is the only one that is stored
      cases first : p.hasContentLength with
      | true =>
        obtain ⟨value, more, filled⟩ := List.exists_cons_of_ne_nil (known.mp first)
        simp [same, length, means.values, combined, filled]
      | false =>
        have empty : valuesOf done (bytes "Content-Length") = [] := by simpa [first] using known
        simp [same, length, find_addField, means.values, combined, empty]
    · simp [same, length, find_addField, means.values, combined_snoc length]
  · have differs : ¬ key = canonicalName field.name := fun equal => same equal.symm
    rw [if_neg same, List.append_nil, ← means.values]
    split_ifs
    · rfl
    · rw [find_addField, if_neg differs]

theorem Means.store (means : Means p req http11 done) (few : p.headers + 1 ≤ 100)
    (stored : storeField { p with headers := p.headers + 1 } (canonicalName field.name) field.value req =
      .ok (p', req')) : Means p' req' http11 (done ++ [field]) where
  tracks := means.tracks.snoc few (storeField_stored field stored)
  values key := by
    rw [storeField_req stored]
    exact means.values_store field key
  distinct := by
    rw [storeField_req stored]
    split_ifs
    · exact means.distinct
    · rw [addField_keys]
      split_ifs with present
      · exact means.distinct
      · exact List.Nodup.append means.distinct (by simp) (by simpa using present)
  untouched := by
    obtain ⟨-, -, -, limit, delivered⟩ := storeField_keeps stored
    rw [limit, delivered]
    exact means.untouched
  http11 := (storeField_options stored).1.trans means.http11
  close := by
    rw [(storeField_options stored).2.1, Asks.snoc, Field.is_connection]
    exact or_congr_left means.close
  keepAlive := by
    rw [(storeField_options stored).2.2, Asks.snoc, Field.is_connection]
    exact or_congr_left means.keepAlive

theorem Stores.means (stores : Stores p req fields p' req') (means : Means p req http11 done) :
    Means p' req' http11 (done ++ fields) := by
  induction stores generalizing done with
  | nil => simpa using means
  | cons few stored _ ih => simpa using ih (means.store few stored)

end Run

def HeadLines (digit : Byte) (fields : List Field) (head : Bytes) : Prop :=
  ∃ blanks method target eol lines last,
    head = List.flatten blanks ++
      (method ++ sp :: (target ++ sp :: (bytes "HTTP/1." ++ [digit])) ++ eol ++ (lines ++ last)) ∧
    (∀ blank ∈ blanks, IsEol blank) ∧ method ≠ [] ∧ (∀ c ∈ method, Tchar c) ∧ target ≠ [] ∧
    (∀ c ∈ target, Vchar c) ∧ DecimalDigit digit ∧ IsEol eol ∧ FieldLines fields lines ∧ IsEol last

section Parsed

variable {p p' : Parser} {req req' : Request} {fields : List Field}

theorem HeadOf.headLines {head : Bytes} (isHead : HeadOf fields head) : ∃ digit, HeadLines digit fields head := by
  obtain ⟨blanks, request, eol, lines, last, rfl, empty, ⟨method, target, digit, rfl, named, token, visible, chars,
    decimal⟩, ended, isLines, ended', -⟩ := isHead
  exact ⟨digit, blanks, method, target, eol, lines, last, rfl, empty, named, token, visible, chars, decimal, ended,
    isLines, ended'⟩

theorem parseRequestLine_version {method target : Bytes} {digit : Byte} (token : ∀ c ∈ method, Tchar c)
    (chars : ∀ c ∈ target, Vchar c)
    (parsed : parseRequestLine p (method ++ sp :: (target ++ sp :: (bytes "HTTP/1." ++ [digit]))) req =
      .ok (p', req')) :
    p' = { p with http11 := digit ≠ ch '0' } ∧ req' = { req with method := method, url := target } := by
  have first : cut sp (method ++ sp :: (target ++ sp :: (bytes "HTTP/1." ++ [digit]))) = some (method, _) :=
    cut_of_append fun member => (token _ member).ne.2.2.1 rfl
  have second : cut sp (target ++ sp :: (bytes "HTTP/1." ++ [digit])) = some (target, _) :=
    cut_of_append fun member => (chars _ member).ne.2.2 rfl
  have minor : (bytes "HTTP/1." ++ [digit]).getD 7 0 = digit := by
    rw [show bytes "HTTP/1." = [72, 84, 84, 80, 47, 49, 46] by decide]
    rfl
  simp only [parseRequestLine, first, second, minor] at parsed
  split_ifs at parsed
  cases parsed
  exact ⟨rfl, rfl⟩

theorem headerLines_line {size pos : Nat} {view : Bytes} {line : Line} (found : nextLine view = some line) :
    headerLines size pos p req view =
      if p.headSeen + (pos + line.next) > maxHeadSize then .error (fail 431 "Request header fields too large")
      else if line.text = [] then
        (finalizeHead p req).map fun (p, req) =>
          (pos + line.next, { p with head := .done, headSeen := p.headSeen + (pos + line.next) }, req)
      else parseHeaderField p line.text req >>= fun (p, req) =>
        headerLines size (pos + line.next) p req (view.drop line.next) := by
  rw [headerLines]
  split
  · simp_all
  · rename_i line' found'
    cases found.symm.trans found'
    dsimp only
    split_ifs
    · rfl
    · cases finalizeHead p req <;> rfl
    · cases parseHeaderField p line.text req <;> rfl

theorem Field.IsLine.stores {field : Field} {text : Bytes} {result : Parser × Request} (line : field.IsLine text)
    (parsed : parseHeaderField p text req = .ok result) :
    p.headers + 1 ≤ 100 ∧
      storeField { p with headers := p.headers + 1 } (canonicalName field.name) field.value req = .ok result := by
  unfold parseHeaderField at parsed
  split_ifs at parsed with many
  rw [splitField_iff.mpr line] at parsed
  exact ⟨not_lt.mp many, parsed⟩

theorem headerLines_stores {lines last : Bytes} (isLines : FieldLines fields lines) (ended : IsEol last)
    (size : Nat) (rest : Bytes) {pos n : Nat}
    (parsed : headerLines size pos p req (lines ++ last ++ rest) = .ok (n, p', req')) :
    ∃ q r q', Stores p req fields q r ∧ finalizeHead q r = .ok (q', req') ∧
      p' = { q' with head := .done, headSeen := p'.headSeen } := by
  induction isLines generalizing pos p req with
  | nil =>
    have found : nextLine ([] ++ last ++ rest) = some ⟨[], _⟩ := nextLine_of_eol rest ended (by simp)
    rw [headerLines_line found] at parsed
    split_ifs at parsed with large text
    case neg => exact absurd rfl text
    cases finished : finalizeHead p req with
    | error e => simp [finished, Except.map] at parsed
    | ok result =>
      rw [finished] at parsed
      cases parsed
      exact ⟨p, req, result.1, .nil p req, finished, rfl⟩
  | @cons field fields text eol lines line ended' isLines ih =>
    obtain ⟨filled, plain⟩ := line.plain
    have found := nextLine_of_eol (lines ++ last ++ rest) ended' plain
    have split : text ++ eol ++ lines ++ last ++ rest = text ++ eol ++ (lines ++ last ++ rest) := by simp
    rw [split, headerLines_line found] at parsed
    split_ifs at parsed with large
    cases read : parseHeaderField p text req with
    | error e => simp [read, bind, Except.bind] at parsed
    | ok result =>
      rw [read] at parsed
      change headerLines _ _ result.1 result.2 (List.drop _ _) = _ at parsed
      rw [List.drop_left] at parsed
      obtain ⟨few, stored⟩ := line.stores read
      obtain ⟨q, r, q', stores, finished, same⟩ := ih parsed
      exact ⟨q, r, q', .cons few stored stores, finished, same⟩

theorem HeadLines.means {digit : Byte} {head rest : Bytes} {n : Nat} (isHead : HeadLines digit fields head)
    (parsed : parseHead p (head ++ rest) {} = .ok (n, p', req')) :
    ∃ q r q', Means q r (digit ≠ ch '0') fields ∧ finalizeHead q r = .ok (q', req') ∧
      p' = { q' with head := .done, headSeen := p'.headSeen } := by
  obtain ⟨blanks, method, target, eol, lines, last, rfl, empty, named, token, visible, chars, decimal, ended, isLines,
    ended'⟩ := isHead
  obtain ⟨request, text⟩ : ∃ request, request = method ++ sp :: (target ++ sp :: (bytes "HTTP/1." ++ [digit])) :=
    ⟨_, rfl⟩
  rw [← text] at parsed
  have isRequest : IsRequestLine request := ⟨method, target, digit, text, named, token, visible, chars, decimal⟩
  obtain ⟨filled, plain⟩ := isRequest.plain
  have found := nextLine_of_eol (lines ++ last ++ rest) ended plain
  have skipped := skipEmptyLines_blanks 0 empty found filled
  have join : blanks.flatten ++ (request ++ eol ++ (lines ++ last)) ++ rest =
      blanks.flatten ++ (request ++ eol ++ (lines ++ last ++ rest)) := by simp
  have unread : (blanks.flatten ++ (request ++ eol ++ (lines ++ last ++ rest))).drop
      (blanks.flatten.length + (request ++ eol).length) = lines ++ last ++ rest := by
    rw [← List.append_assoc, ← List.length_append, List.drop_left]
  rw [join] at parsed
  simp only [parseHead, beginRequest, headLines, skipped, if_true, Nat.zero_add, unread] at parsed
  cases first : parseRequestLine {} request { state := .processingUrl } with
  | error e => simp [first] at parsed
  | ok result =>
    obtain ⟨q, r⟩ := result
    obtain ⟨rfl, rfl⟩ := parseRequestLine_version token chars (text ▸ first)
    rw [first] at parsed
    dsimp only at parsed
    split_ifs at parsed
    obtain ⟨q, r, q', stores, finished, same⟩ := headerLines_stores isLines ended' _ rest parsed
    have start : Means { head := .headers, http11 := digit ≠ ch '0' }
        { method := method, url := target, state := .processingHeader } (digit ≠ ch '0') [] := by
      refine ⟨.nil 0 _, fun key => ?_, by simp, ⟨rfl, rfl⟩, rfl, by simp [Asks], by simp [Asks]⟩
      simp [Fields.find, valuesOf, combined]
    exact ⟨q, r, q', by simpa using stores.means start, finished, same⟩

theorem finalizeHead_request (finished : finalizeHead p req = .ok (p', req')) :
    req'.fields = req.fields ∧ req'.keepAlive = p.persistent := by
  unfold finalizeHead at finished
  split_ifs at finished <;> cases finished <;> exact ⟨rfl, rfl⟩

theorem Delimited.completed_iff (delimited : Delimited fields p req) :
    req.state = .completed ↔
      (∀ field ∈ fields, ¬ field.Is "Transfer-Encoding") ∧
        ∀ field ∈ fields, field.Is "Content-Length" → decimalValue field.value = 0 := by
  cases delimited with
  | chunked coded _ _ _ state =>
    obtain ⟨field, member, coding⟩ := coded
    simpa [state] using fun none => absurd coding (none field member)
  | length sized positive _ state =>
    obtain ⟨field, member, length, value⟩ := sized
    refine ⟨by simp [state], fun ⟨_, zero⟩ => ?_⟩
    have := zero field member length
    omega
  | none lengths codings state => exact ⟨fun _ => ⟨codings, lengths⟩, fun _ => state⟩

theorem HeadOf.delimited {head rest : Bytes} {n : Nat} (isHead : HeadOf fields head)
    (parsed : parseHead {} (head ++ rest) {} = .ok (n, p', req')) : Delimited fields p' req' := by
  obtain ⟨digit, lines⟩ := isHead.headLines
  obtain ⟨q, r, q', means, finished, same⟩ := lines.means parsed
  obtain ⟨-, delimited⟩ := finalizeHead_delimits means.tracks finished
  rw [same]
  exact delimited.of_eq rfl rfl rfl rfl

-- The length that is announced is that of the body.
theorem IsMessage.length_eq {message : Bytes} {n : Nat} (isMessage : IsMessage message)
    (parsed : parseHead {} message {} = .ok (n, p', req')) (mode : p'.body = .contentLength)
    (running : req'.state = .headersCompleted) : message.length = n + p'.remaining := by
  obtain ⟨fields, head, body, rfl, isHead, isBody⟩ := isMessage
  obtain ⟨_, _, accepted, -⟩ := isHead.accepted body
  cases accepted.symm.trans parsed
  rw [List.length_append]
  congr 1
  cases isHead.delimited parsed with
  | chunked _ _ coded => cases mode.symm.trans coded
  | none _ _ completed => cases running.symm.trans completed
  | length sized =>
    obtain ⟨field, mem, length, value⟩ := sized
    obtain ⟨_, _, _, _, _, -, -, -, -, -, -, -, framed, -⟩ := isHead
    cases isBody with
    | chunked coded => exact absurd ⟨⟨field, mem, length⟩, coded⟩ framed.exclusive
    | none unsized => exact absurd length (unsized field mem).1
    | length sized =>
      obtain ⟨other, mem', length', value'⟩ := sized
      obtain ⟨announced, -, same⟩ := framed.lengths
      rw [← value, ← value', (same field mem length).2.2, (same other mem' length').2.2]

theorem Parser.persistent_iff (p : Parser) : p.persistent ↔ ¬ p.close ∧ (p.http11 ∨ p.keepAlive) := by
  unfold Parser.persistent
  cases p.http11 <;> cases p.close <;> simp

theorem mem_keys_iff (stored : Fields) (key : Bytes) : key ∈ stored.map Prod.fst ↔ (stored.find key).isSome := by
  simp [Fields.find]

theorem find_of_mem {stored : Fields} (distinct : (stored.map Prod.fst).Nodup) {kv : Bytes × Bytes}
    (mem : kv ∈ stored) : stored.find kv.1 = some kv.2 := by
  induction stored with
  | nil => cases mem
  | cons first rest ih =>
    rw [List.map_cons, List.nodup_cons] at distinct
    rcases List.mem_cons.mp mem with rfl | mem
    · simp [Fields.find]
    · have other : first.1 ≠ kv.1 := fun same => distinct.1 (same ▸ List.mem_map_of_mem mem)
      simpa [Fields.find, List.find?_cons, other] using ih distinct.2 mem

theorem valuesOf_ne_nil (fields : List Field) (key : Bytes) :
    valuesOf fields key ≠ [] ↔ ∃ field ∈ fields, canonicalName field.name = key := by
  simp [valuesOf]

theorem combined_isSome (key : Bytes) (values : List Bytes) : (combined key values).isSome ↔ values ≠ [] := by
  unfold combined
  split_ifs with length empty
  · cases values <;> simp
  · simp [empty]
  · simp [empty]

/-- What the request of an accepted head says about the lines of the head. -/
theorem parse_head_meaning {data : Bytes} {n : Nat} (parsed : parseHead p data {} = .ok (n, p', req))
    (complete : req.state = .headersCompleted ∨ req.state = .completed) :
    (∃ digit fields, HeadLines digit fields (data.take n)) ∧
    (∀ a b : Bytes, canonicalName a = canonicalName b ↔ iequals a b) ∧
    (∀ a : Bytes, canonicalName (canonicalName a) = canonicalName a) ∧
    ∀ digit fields, HeadLines digit fields (data.take n) →
      (∀ key, key ∈ req.fields.map Prod.fst ↔ ∃ field ∈ fields, canonicalName field.name = key) ∧
      (req.fields.map Prod.fst).Nodup ∧
      (∀ kv ∈ req.fields, kv.1 ≠ bytes "Content-Length" →
        kv.2 = (bytes ", ").intercalate (valuesOf fields kv.1)) ∧
      (∀ kv ∈ req.fields, kv.1 = bytes "Content-Length" → (valuesOf fields kv.1).head? = some kv.2) ∧
      (req.keepAlive ↔ ¬ Asks fields "close" ∧ (digit ≠ ch '0' ∨ Asks fields "keep-alive")) ∧
      (req.state = .completed ↔
        (∀ field ∈ fields, ¬ field.Is "Transfer-Encoding") ∧
          ∀ field ∈ fields, field.Is "Content-Length" → decimalValue field.value = 0) := by
  have fresh : parseHead {} data {} = .ok (n, p', req) := parsed
  obtain ⟨-, fields, isHead⟩ := parseHead_headOf fresh complete
  obtain ⟨digit, lines⟩ := isHead.headLines
  refine ⟨⟨digit, fields, lines⟩, canonicalName_inj, canonicalName_idem, fun digit fields lines => ?_⟩
  rw [← List.take_append_drop n data] at parsed
  obtain ⟨q, r, q', means, finished, -⟩ := lines.means parsed
  obtain ⟨same, keepAlive⟩ := finalizeHead_request finished
  obtain ⟨-, delimited⟩ := finalizeHead_delimits means.tracks finished
  have entry (kv : Bytes × Bytes) (mem : kv ∈ req.fields) : combined kv.1 (valuesOf fields kv.1) = some kv.2 := by
    rw [← means.values]
    exact find_of_mem means.distinct (same ▸ mem)
  refine ⟨fun key => ?_, same ▸ means.distinct, fun kv mem other => ?_, fun kv mem length => ?_, ?_,
    delimited.completed_iff⟩
  · rw [mem_keys_iff, same, means.values, combined_isSome, valuesOf_ne_nil]
  · have value := entry kv mem
    rw [combined, if_neg other] at value
    split_ifs at value
    exact (Option.some.inj value).symm
  · have value := entry kv mem
    rwa [combined, if_pos length] at value
  · rw [keepAlive, Parser.persistent_iff, means.close, means.keepAlive, means.http11]
    simp

theorem parse_head_meaning_repeated :
    ∃ digit fields, HeadLines digit fields
        (bytes "GET / HTTP/1.0\r\nconnection: Keep-Alive\r\nx-a: 1\r\nX-A:2 \r\n\r\n") ∧
      ¬ Asks fields "close" ∧ (digit ≠ ch '0' ∨ Asks fields "keep-alive") ∧
      bytes "1, 2" = (bytes ", ").intercalate (valuesOf fields (bytes "X-A")) := by
  have parsed : parseHead {} (bytes "GET / HTTP/1.0\r\nconnection: Keep-Alive\r\nx-a: 1\r\nX-A:2 \r\n\r\n") {} =
      .ok (58, { head := .done, headSeen := 58, headers := 3, keepAlive := true },
        { fields := [(bytes "Connection", bytes "Keep-Alive"), (bytes "X-A", bytes "1, 2")], keepAlive := true,
          url := bytes "/", method := bytes "GET", state := .completed }) := by decide +kernel
  obtain ⟨⟨digit, fields, lines⟩, -, -, meaning⟩ := parse_head_meaning parsed (.inr rfl)
  obtain ⟨-, -, joined, -, keepAlive, -⟩ := meaning digit fields lines
  obtain ⟨stays, keep⟩ := keepAlive.mp rfl
  exact ⟨digit, fields, lines, stays, keep, joined (bytes "X-A", bytes "1, 2") (by simp) (by decide)⟩

end Parsed

end Dracon
