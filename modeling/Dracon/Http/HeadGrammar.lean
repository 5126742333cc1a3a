import Dracon.Http.Grammar
import Dracon.Http.HeadRefinement

set_option autoImplicit false

namespace Dracon

open Shared

section Chars

theorem ch_values : ch '0' = 48 ∧ ch '9' = 57 ∧ ch 'A' = 65 ∧ ch 'F' = 70 ∧ ch 'Z' = 90 ∧
    ch 'a' = 97 ∧ ch 'f' = 102 ∧ ch 'z' = 122 ∧ ch '-' = 45 ∧ ch ':' = 58 := by
  decide

theorem tokenChar_iff (c : Byte) : charTable c .tokenChar ↔ Tchar c := by
  simp [charTable, Tchar, or_assoc]

theorem targetChar_iff (c : Byte) : charTable c .targetChar ↔ Vchar c := by
  simp only [charTable, Vchar]
  grind

theorem valueChar_iff (c : Byte) : charTable c .valueChar ↔ FieldChar c := by
  simp only [charTable, FieldChar, Vchar]
  grind

theorem isDigit_iff (c : Byte) : isDigit c ↔ DecimalDigit c := by
  simp [isDigit, DecimalDigit]

theorem hexDigit_iff (c : Byte) : (charTable c .hexChar && c ≤ ch '9') ↔ DecimalDigit c := by
  simp only [charTable, DecimalDigit, isDigit, ch_values]
  grind

theorem Tchar.ne {c : Byte} (token : Tchar c) :
    c ≠ lf ∧ c ≠ cr ∧ c ≠ sp ∧ c ≠ ch ':' ∧ isOws c = false := by
  rcases token with alpha | digit | mark
  · simp only [isAlpha, isOws, ch_values] at *
    grind
  · simp only [isDigit, isOws, ch_values] at *
    grind
  · have marks : (bytes "!#$%&'*+-.^_`|~").all fun c =>
        c ≠ lf ∧ c ≠ cr ∧ c ≠ sp ∧ c ≠ ch ':' ∧ isOws c = false := by decide
    exact of_decide_eq_true (List.all_eq_true.mp marks c mark)

theorem Vchar.ne {c : Byte} (visible : Vchar c) : c ≠ lf ∧ c ≠ cr ∧ c ≠ sp := by
  unfold Vchar at visible
  grind

theorem FieldChar.ne {c : Byte} (char : FieldChar c) : c ≠ lf ∧ c ≠ cr := by
  unfold FieldChar Vchar at char
  grind

theorem DecimalDigit.ne {c : Byte} (digit : DecimalDigit c) : c ≠ lf ∧ c ≠ cr := by
  simp only [DecimalDigit, ch_values] at digit
  grind

theorem isOws_ne {c : Byte} (ows : isOws c) : c ≠ lf ∧ c ≠ cr := by
  unfold isOws at ows
  grind

theorem allChars_token {str : Bytes} : allChars str .tokenChar ↔ ∀ c ∈ str, Tchar c := by
  simp [allChars, ← tokenChar_iff]

theorem allChars_target {str : Bytes} : allChars str .targetChar ↔ ∀ c ∈ str, Vchar c := by
  simp [allChars, ← targetChar_iff]

theorem allChars_value {str : Bytes} : allChars str .valueChar ↔ ∀ c ∈ str, FieldChar c := by
  simp [allChars, ← valueChar_iff]

end Chars

section Lines

theorem nextLine_of_eol {text eol : Bytes} (rest : Bytes) (ended : IsEol eol)
    (plain : ∀ c ∈ text, c ≠ lf ∧ c ≠ cr) :
    nextLine (text ++ eol ++ rest) = some ⟨text, (text ++ eol).length⟩ := by
  have absent : lf ∉ text := fun member => (plain _ member).1 rfl
  rcases ended with rfl | rfl
  · refine nextLine_eq_some.mpr ⟨text, rest, by simp, absent, ?_⟩
    have last : text.getLast? ≠ some cr := fun found =>
      (plain _ (List.mem_of_getLast? found)).2 rfl
    simp [stripCr, last]
  · refine nextLine_eq_some.mpr ⟨text ++ [cr], rest, by simp, by simp [absent, show lf ≠ cr by decide], ?_⟩
    simp [stripCr]

theorem eol_of_nextLine {d : Bytes} {line : Line} (found : nextLine d = some line) :
    ∃ eol rest, IsEol eol ∧ d = line.text ++ eol ++ rest ∧
      line.next = (line.text ++ eol).length := by
  obtain ⟨text, rest, rfl, -, rfl⟩ := nextLine_eq_some.mp found
  by_cases last : text.getLast? = some cr
  · obtain ⟨front, rfl⟩ : ∃ front, text = front ++ [cr] := by
      obtain ⟨front, back, rfl⟩ := List.eq_nil_or_concat' text |>.resolve_left (by rintro rfl; simp at last)
      exact ⟨front, by simpa using last⟩
    exact ⟨[cr, lf], rest, .inr rfl, by simp [stripCr], by simp [stripCr]⟩
  · exact ⟨[lf], rest, .inl rfl, by simp [stripCr, last], by simp [stripCr, last]⟩

end Lines

section RequestLine

theorem version_iff {version : Bytes} :
    (validVersion version ∧ version.getD 5 0 = ch '1') ↔
      ∃ digit, version = bytes "HTTP/1." ++ [digit] ∧ DecimalDigit digit := by
  have name : bytes "HTTP/1." = [72, 84, 84, 80, 47, ch '1', ch '.'] := by decide
  have front : bytes "HTTP/" = [72, 84, 84, 80, 47] := by decide
  constructor
  · rintro ⟨valid, major⟩
    unfold validVersion at valid
    simp only [Bool.and_eq_true, beq_iff_eq] at valid
    obtain ⟨⟨⟨⟨⟨⟨length, http⟩, point⟩, -⟩, -⟩, hex⟩, small⟩ := valid
    match version, length with
    | [a, b, c, d, e, f, g, h], _ =>
      obtain ⟨rfl, rfl, rfl, rfl, rfl⟩ : 72 = a ∧ 84 = b ∧ 84 = c ∧ 80 = d ∧ 47 = e := by
        simpa [front] using http
      obtain rfl : f = ch '1' := by simpa using major
      obtain rfl : g = ch '.' := by simpa using point
      exact ⟨h, by simp [name], (hexDigit_iff h).mp (by simpa using ⟨hex, of_decide_eq_true small⟩)⟩
  · rintro ⟨digit, rfl, decimal⟩
    have hex := (hexDigit_iff digit).mpr decimal
    rw [Bool.and_eq_true] at hex
    have one : charTable (ch '1') .hexChar = true ∧ ch '1' ≤ ch '9' := by decide
    rw [name]
    simp [validVersion, front, one, hex.1, of_decide_eq_true hex.2]

theorem parseRequestLine_iff {p : Parser} {text : Bytes} {req : Request} :
    (∃ r, parseRequestLine p text req = .ok r) ↔ IsRequestLine text := by
  constructor
  · rintro ⟨r, parsed⟩
    unfold parseRequestLine at parsed
    split at parsed
    · cases parsed
    rename_i method afterMethod first
    obtain ⟨rfl, -⟩ := cut_eq_some.mp first
    split at parsed
    · cases parsed
    rename_i named
    split at parsed
    · cases parsed
    rename_i target version second
    obtain ⟨rfl, -⟩ := cut_eq_some.mp second
    split_ifs at parsed with visible token chars valid major
    obtain ⟨digit, rfl, decimal⟩ := version_iff.mp ⟨by simpa using valid, not_not.mp major⟩
    exact ⟨method, target, digit, rfl, named, allChars_token.mp (by simpa using token), visible,
      allChars_target.mp (by simpa using chars), decimal⟩
  · rintro ⟨method, target, digit, rfl, named, token, visible, chars, decimal⟩
    obtain ⟨valid, major⟩ := version_iff.mpr ⟨digit, rfl, decimal⟩
    generalize bytes "HTTP/1." ++ [digit] = version at *
    have first : cut sp (method ++ sp :: (target ++ sp :: version)) = some (method, _) :=
      cut_of_append fun member => (token _ member).ne.2.2.1 rfl
    have second : cut sp (target ++ sp :: version) = some (target, version) :=
      cut_of_append fun member => (chars _ member).ne.2.2 rfl
    have tokens := allChars_token.mpr token
    have targets := allChars_target.mpr chars
    simp only [parseRequestLine, first, named, second, visible, tokens, targets, valid, major]
    simp

theorem IsRequestLine.plain {text : Bytes} (line : IsRequestLine text) :
    text ≠ [] ∧ ∀ c ∈ text, c ≠ lf ∧ c ≠ cr := by
  obtain ⟨method, target, digit, rfl, named, token, -, visible, decimal⟩ := line
  refine ⟨by simp, fun c member => ?_⟩
  have space : sp ≠ lf ∧ sp ≠ cr := by decide
  have version : (bytes "HTTP/1.").all fun c => c ≠ lf ∧ c ≠ cr := by decide
  simp only [List.mem_append, List.mem_cons, List.not_mem_nil, or_false] at member
  rcases member with member | rfl | member | rfl | member | rfl
  · exact ⟨(token c member).ne.1, (token c member).ne.2.1⟩
  · exact space
  · exact ⟨(visible c member).ne.1, (visible c member).ne.2.1⟩
  · exact space
  · exact of_decide_eq_true (List.all_eq_true.mp version c member)
  · exact DecimalDigit.ne decimal

end RequestLine

section Fields

theorem splitField_iff {text : Bytes} {field : Field} :
    splitField text = .ok (field.name, field.value) ↔ field.IsLine text := by
  constructor
  · intro parsed
    unfold splitField at parsed
    split_ifs at parsed
    split at parsed
    · cases parsed
    rename_i name afterColon found
    obtain ⟨rfl, -⟩ := cut_eq_some.mp found
    split_ifs at parsed with named token chars
    obtain ⟨rfl, value⟩ : name = field.name ∧ trimOws afterColon = field.value := by
      simpa using parsed
    rw [value] at chars
    have ends := trim_ends isOws afterColon
    change Trimmed (trimOws afterColon) at ends
    rw [value] at ends
    refine ⟨⟨afterColon.takeWhile isOws, (afterColon.dropWhile isOws).rtakeWhile isOws,
      fun c => List.mem_takeWhile_imp, fun c => List.mem_rtakeWhile_imp, ?_⟩, named,
      allChars_token.mp (by simpa using token), allChars_value.mp (by simpa using chars), ends⟩
    simp [← value, trimOws, List.rdropWhile_append_rtakeWhile]
  · rintro ⟨⟨before, after, left, right, rfl⟩, named, token, chars, trimmed⟩
    have found : cut (ch ':') (field.name ++ ch ':' :: (before ++ field.value ++ after)) =
        some (field.name, _) := cut_of_append fun member => (token _ member).ne.2.2.2.1 rfl
    have value : trimOws (before ++ field.value ++ after) = field.value :=
      trim_append left right trimmed.1 trimmed.2
    have tokens := allChars_token.mpr token
    have values := allChars_value.mpr chars
    have unfolded : (field.name ++ ch ':' :: (before ++ field.value ++ after)).head?.any isOws = false := by
      obtain ⟨c, rest, split⟩ := List.exists_cons_of_ne_nil named
      rw [split] at token ⊢
      simpa using (token c (by simp)).ne.2.2.2.2
    simp only [splitField, unfolded, found, named, tokens, value, values]
    simp

theorem Field.IsLine.plain {field : Field} {text : Bytes} (line : field.IsLine text) :
    text ≠ [] ∧ ∀ c ∈ text, c ≠ lf ∧ c ≠ cr := by
  obtain ⟨⟨before, after, left, right, rfl⟩, named, token, chars, trimmed⟩ := line
  refine ⟨by simp, fun c member => ?_⟩
  simp only [List.mem_append, List.mem_cons] at member
  rcases member with member | rfl | (member | member) | member
  · exact ⟨(token c member).ne.1, (token c member).ne.2.1⟩
  · decide
  · exact isOws_ne (left c member)
  · exact (chars c member).ne
  · exact isOws_ne (right c member)

end Fields

section Names

theorem toLowerAscii_idem (c : Byte) : toLowerAscii (toLowerAscii c) = toLowerAscii c ∧
    toUpperAscii (toLowerAscii c) = toUpperAscii c ∧ toLowerAscii (toUpperAscii c) = toLowerAscii c ∧
    (toLowerAscii c == ch '-') = (c == ch '-') := by
  simp only [toLowerAscii, toUpperAscii, ch_values]
  grind

theorem canonicalFrom_lower (upper : Bool) (name : Bytes) :
    canonicalFrom upper (name.map toLowerAscii) = canonicalFrom upper name ∧
      (canonicalFrom upper name).map toLowerAscii = name.map toLowerAscii := by
  induction name generalizing upper with
  | nil => simp [canonicalFrom]
  | cons c rest ih =>
    have case := toLowerAscii_idem c
    cases upper <;> simp [canonicalFrom, case, ih]

theorem canonicalName_eq {name key : Bytes} (canonical : canonicalName key = key) :
    canonicalName name = key ↔ iequals name key := by
  have same := (canonicalFrom_lower true name).1
  have lower := (canonicalFrom_lower true name).2
  simp only [iequals, beq_iff_eq]
  constructor
  · intro equal
    rw [← equal, canonicalName, lower]
  · intro equal
    rw [canonicalName, ← same, equal, (canonicalFrom_lower true key).1]
    exact canonical

theorem Field.is_contentLength {field : Field} :
    canonicalName field.name = bytes "Content-Length" ↔ field.Is "Content-Length" :=
  canonicalName_eq (by decide)

theorem Field.is_transferEncoding {field : Field} :
    canonicalName field.name = bytes "Transfer-Encoding" ↔ field.Is "Transfer-Encoding" :=
  canonicalName_eq (by decide)

theorem Field.Is.exclusive {field : Field} (length : field.Is "Content-Length") :
    ¬ field.Is "Transfer-Encoding" := by
  rw [← Field.is_contentLength] at length
  rw [← Field.is_transferEncoding, length]
  decide

end Names

section Values

def IsNumber (value : Bytes) (n : Nat) : Prop :=
  value ≠ [] ∧ (∀ c ∈ value, DecimalDigit c) ∧ decimalValue value = n

theorem fromChars_iff {value : Bytes} {n : Nat} (small : n < sizeMod) :
    fromChars value = some (n, []) ↔ IsNumber value n := by
  have digits : (∀ c ∈ value, DecimalDigit c) ↔ value.dropWhile isDigit = [] := by
    simp [← isDigit_iff]
  rw [IsNumber, digits]
  simp only [fromChars, decimalValue]
  constructor
  · intro parsed
    split_ifs at parsed with wrong
    obtain ⟨number, rest⟩ : _ ∧ value.dropWhile isDigit = [] := by simpa using parsed
    have whole : value.takeWhile isDigit = value := by
      simpa [rest] using List.takeWhile_append_dropWhile (p := isDigit) (l := value)
    rw [whole] at wrong number
    exact ⟨fun empty => wrong (.inl empty), rest, number⟩
  · rintro ⟨filled, rest, rfl⟩
    have whole : value.takeWhile isDigit = value := by
      simpa [rest] using List.takeWhile_append_dropWhile (p := isDigit) (l := value)
    simp [whole, filled, rest, small]

theorem contentLengthField_ok {p : Parser} {value : Bytes} {r : Parser × Bool} :
    contentLengthField p value = .ok r ↔
      ∃ n < 2 ^ 64 - 1, IsNumber value n ∧ (p.hasContentLength → p.contentLength = n) ∧
        r = ({ p with hasContentLength := true, contentLength := n }, !p.hasContentLength) := by
  unfold contentLengthField
  constructor
  · intro parsed
    split at parsed
    · cases parsed
    rename_i n rest found
    split_ifs at parsed with wrong known differs
    all_goals
      simp only [not_or, not_not, not_le] at wrong
      obtain ⟨-, rfl, small⟩ := wrong
      have fits : n < sizeMod := lt_of_lt_of_le small (Nat.sub_le _ _)
      refine ⟨n, small, (fromChars_iff fits).mp found, ?_⟩
      cases parsed
    · cases p
      simp_all
    · simp [known]
  · rintro ⟨n, small, number, agree, rfl⟩
    have fits : n < sizeMod := lt_of_lt_of_le small (Nat.sub_le _ _)
    have found := (fromChars_iff fits).mpr number
    have short : ¬ chunkedData ≤ n := Nat.not_le.mpr small
    obtain ⟨_, _, _, _, _, _, _, _, _, known, _, _, _⟩ := p
    cases known <;> simp_all [number.1]

theorem forEachToken_elements {σ : Type} (fn : σ → Bytes → σ) (acc : σ) (value : Bytes) :
    forEachToken fn acc value = (elements value).foldl fn acc := by
  fun_induction forEachToken fn acc value with
  | case1 acc value missing empty =>
    simp [elements, List.splitOn_eq_singleton (cut_eq_none.mp missing), empty]
  | case2 acc value missing filled =>
    simp [elements, List.splitOn_eq_singleton (cut_eq_none.mp missing), filled]
  | case3 acc value token rest found ih =>
    obtain ⟨rfl, absent⟩ := cut_eq_some.mp found
    simp only [dite_eq_ite] at ih
    rw [ih, elements, elements, List.splitOn_append_cons_self_of_not_mem absent]
    by_cases empty : trimOws token = [] <;> simp [empty]

theorem codings_counted (n : Nat) (codings : List Bytes) (last : Bytes) :
    codings.foldl (fun (acc : Nat × Bytes) coding => (acc.1 + 1, coding)) (n, last) =
      (n + codings.length, codings.getLastD last) := by
  induction codings generalizing n last with
  | nil => simp
  | cons coding codings ih =>
    rw [List.foldl_cons, ih, List.getLastD_cons, List.length_cons, Nat.add_assoc, Nat.add_comm 1]

theorem transferEncodingField_ok {p p' : Parser} {value : Bytes} :
    transferEncodingField p value = .ok p' ↔
      p.chunked = false ∧ (∃ coding, elements value = [coding] ∧ iequals coding (bytes "chunked")) ∧
        p' = { p with chunked := true } := by
  simp only [transferEncodingField, forEachToken_elements, codings_counted]
  rcases elements value with - | ⟨coding, - | ⟨second, more⟩⟩
  · have other : iequals [] (bytes "chunked") = false := by decide
    simp [other]
  · cases p.chunked <;> cases iequals coding (bytes "chunked") <;> simp <;> grind
  · cases p.chunked <;> simp <;> grind

end Values

end Dracon
