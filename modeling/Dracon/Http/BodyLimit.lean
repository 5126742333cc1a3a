import Dracon.Http.BodyGrammar
import Dracon.Http.Segmentation

set_option autoImplicit false

namespace Dracon

open Shared

def tooLarge : Exc := fail 413 "Request entity too large"

-- `parse_body` on the unread bytes, with what a throw leaves behind
def readPiece (cb : Callback) (t : Reception) (data : Bytes) : Except Thrown (Nat × Reception) :=
  (parseBody cb t.parser data t.req).map fun (n, p, req) => (n, ⟨p, req⟩)

def readPieces (cb : Callback) (t : Reception) (pieces : List Bytes) : Except Thrown (Reception × Bytes) :=
  feedAll (readPiece cb) t [] pieces

def Request.handed (req : Request) : Nat := req.delivered.flatten.length

def handed {α : Type} (request : α → Request) : Except Thrown α → Nat
  | .error thrown => thrown.req.handed
  | .ok a => (request a).handed

def Rejected {α : Type} : Except Thrown α → Prop
  | .error thrown => thrown.exc = tooLarge
  | .ok _ => False

def Request.limitTo (req : Request) (m : Nat) : Request := { req with maxBodySize := m }

def Reception.limitTo (t : Reception) (m : Nat) : Reception := { t with req := t.req.limitTo m }

theorem Request.handed_receive (req : Request) (piece : Bytes) :
    (req.receive piece).handed = req.handed + piece.length := by
  simp [handed, receive]

section Counting

variable {cb : Callback} {p p' : Parser} {req req' : Request} {view data : Bytes} {pos n m : Nat}

theorem chunkTurn_call_counts (turn : chunkTurn p req view = .call p' req' n) :
    req' = req ∧ n = min p.remaining view.length ∧ p' = { p with received := p.received + n } ∧
      (view.take n).length = n ∧ (req.maxBodySize ≠ 0 → p.received + n ≤ req.maxBodySize) := by
  obtain ⟨-, -, called⟩ := chunkTurn_call.mp turn
  obtain ⟨rfl, rfl, rfl, -, fits⟩ := deliver_call.mp called
  exact ⟨rfl, rfl, rfl, by simp, fits⟩

theorem chunkTurn_next_counts (turn : chunkTurn p req view = .next p' req' n) :
    req' = req ∧ p'.received = p.received ∧ p'.body = p.body := by
  unfold chunkTurn at turn
  split_ifs at turn
  cases chunk : p.chunk <;> simp only [chunk] at turn
  case size =>
    obtain ⟨line, -, complete⟩ := lineTurn_next.mp turn
    obtain ⟨size, -, -, rfl, rfl⟩ := sizeLine_next.mp complete
    exact ⟨rfl, rfl, rfl⟩
  case data => exact absurd turn (deliver_ne_next _ _ _ _ _ _)
  case dataEnd =>
    obtain ⟨rfl, rfl, -⟩ := dataEndTurn_next.mp turn
    exact ⟨rfl, rfl, rfl⟩
  case trailers =>
    obtain ⟨line, -, complete⟩ := lineTurn_next.mp turn
    obtain ⟨-, -, -, -, rfl, rfl⟩ := trailerLine_next.mp complete
    exact ⟨rfl, rfl, rfl⟩

theorem parseChunked_counts (count : p.received = req.handed)
    (parsed : parseChunked cb pos p req view = .ok (n, p', req')) :
    p'.received = req'.handed ∧ p'.body = p.body ∧ req'.callback = req.callback ∧
      req'.maxBodySize = req.maxBodySize := by
  fun_induction parseChunked cb pos p req view with
  | case1 pos p req view q r m turn =>
    cases parsed
    rcases chunkTurn_ret turn with ⟨rfl, rfl, -⟩ | ⟨-, rfl, rfl, -⟩
    · exact ⟨count, rfl, rfl, rfl⟩
    · exact ⟨count, rfl, rfl, rfl⟩
  | case2 | case4 => cases parsed
  | case3 pos p req view q r m turn ih =>
    obtain ⟨rfl, received, body⟩ := chunkTurn_next_counts turn
    rw [← body]
    exact ih (received.trans count) parsed
  | case5 pos p req view q r m turn _ ih =>
    obtain ⟨rfl, -, rfl, length, -⟩ := chunkTurn_call_counts turn
    exact ih (by simp [chunkDelivered, Request.handed_receive, length, count]) parsed

theorem parseChunked_handed (cb : Callback) (pos : Nat) (p : Parser) (req : Request) (view : Bytes) :
    req.handed ≤ handed (·.2.2) (parseChunked cb pos p req view) := by
  fun_induction parseChunked cb pos p req view with
  | case1 pos p req view q r m turn =>
    rcases chunkTurn_ret turn with ⟨rfl, rfl, -⟩ | ⟨-, rfl, rfl, -⟩ <;> exact Nat.le_refl _
  | case2 pos p req view e q r turn => rw [chunkTurn_fail_req turn, handed]
  | case3 pos p req view q r m turn ih =>
    obtain ⟨rfl, -, -⟩ := chunkTurn_next_counts turn
    exact ih
  | case4 pos p req view q r m turn e threw =>
    obtain ⟨rfl, -⟩ := chunkTurn_call_counts turn
    simp [handed, Request.handed_receive]
  | case5 pos p req view q r m turn _ ih =>
    obtain ⟨rfl, -⟩ := chunkTurn_call_counts turn
    rw [Request.handed_receive] at ih
    omega

end Counting

section Capping

-- A result under the limit `m` against the result without a limit: they agree while `m` bytes are enough, and the limit is what
-- is reported when they are not.
inductive Capped {α : Type} (m : Nat) (cap : α → α) (request : α → Request) :
    Except Thrown α → Except Thrown α → Prop
  | within {a : α} (fits : (request a).handed ≤ m) : Capped m cap request (.ok (cap a)) (.ok a)
  | threw {e : Exc} {p : Parser} {req : Request} (other : e ≠ tooLarge) (fits : req.handed ≤ m) :
      Capped m cap request (.error ⟨e, p, req.limitTo m⟩) (.error ⟨e, p, req⟩)
  | beyond {p : Parser} {req : Request} {result : Except Thrown α} (fits : req.handed ≤ m)
      (exceeds : m < handed request result) :
      Capped m cap request (.error ⟨tooLarge, p, req⟩) result

section Results

variable {m : Nat} {α : Type} {cap : α → α} {request : α → Request} {limited result : Except Thrown α}

theorem Capped.handed_le (capped : Capped m cap request limited result)
    (same : ∀ a, (request (cap a)).handed = (request a).handed) : handed request limited ≤ m := by
  cases capped with
  | within fits => exact (same _).trans_le fits
  | threw _ fits | beyond fits _ => exact fits

theorem Capped.rejected_iff (capped : Capped m cap request limited result) :
    Rejected limited ↔ m < handed request result := by
  cases capped with
  | within fits => simpa [Rejected, handed] using fits
  | threw other fits => simpa [Rejected, handed, other] using fits
  | beyond _ exceeds => simpa [Rejected] using exceeds

theorem Capped.of_ok {a : α} (capped : Capped m cap request (.ok a) result) :
    ∃ b, result = .ok b ∧ a = cap b ∧ (request b).handed ≤ m := by
  cases capped with
  | within fits => exact ⟨_, rfl, rfl, fits⟩

theorem handed_map {β : Type} {request' : β → Request} {f : α → β}
    (same : ∀ a, request' (f a) = request a) (result : Except Thrown α) :
    handed request' (result.map f) = handed request result := by
  cases result with
  | error => rfl
  | ok a => simp [Except.map, handed, same]

theorem Capped.map {β : Type} {cap' : β → β} {request' : β → Request} {f : α → β} (commutes : ∀ a, f (cap a) = cap' (f a))
    (same : ∀ a, request' (f a) = request a) (capped : Capped m cap request limited result) :
    Capped m cap' request' (limited.map f) (result.map f) := by
  cases capped with
  | within fits =>
    rw [Except.map, commutes]
    exact .within (same _ ▸ fits)
  | threw other fits => exact .threw other fits
  | beyond fits exceeds => exact .beyond fits (handed_map same result ▸ exceeds)

end Results

def Turn.limitTo (m : Nat) : Turn → Turn
  | .ret p req n => .ret p (req.limitTo m) n
  | .next p req n => .next p (req.limitTo m) n
  | .call p req n => .call p (req.limitTo m) n
  | .fail e p req => .fail e p (req.limitTo m)

variable {cb : Callback} {p p' : Parser} {req req' : Request} {view data : Bytes} {pos n m : Nat}

-- what a body is refused with, other than for its size
inductive Malformed : Exc → Prop
  | bad (reason : String) : Malformed (fail 400 reason)
  | trailers (reason : String) : Malformed (fail 431 reason)

theorem Malformed.ne_tooLarge {e : Exc} (malformed : Malformed e) : e ≠ tooLarge := by
  cases malformed <;> simp [fail, tooLarge]

theorem chunkDigits_error {digits size : Nat} {e : Exc} {text : Bytes}
    (failed : chunkDigits digits size text = .error e) : Malformed e := by
  fun_induction chunkDigits digits size text with
  | case1 | case4 => cases failed
  | case2 =>
    cases failed
    exact .bad _
  | case3 _ _ _ _ _ _ ih => exact ih failed

theorem chunkSize_error {e : Exc} {text : Bytes} (failed : chunkSize text = .error e) : Malformed e := by
  unfold chunkSize at failed
  split at failed
  · cases failed
    exact chunkDigits_error ‹_›
  · dsimp only at failed
    split_ifs at failed <;> cases failed <;> exact .bad _

theorem deliver_limitTo (p : Parser) (unlimited : req.maxBodySize = 0) (positive : m ≠ 0) (size : Nat) :
    deliver p (req.limitTo m) size =
      if m < p.received + size then
        .fail tooLarge { p with received := p.received + size } (req.limitTo m)
      else (deliver p req size).limitTo m := by
  unfold deliver
  by_cases above : m < p.received + size
  · simp [Request.limitTo, positive, above, tooLarge]
  by_cases callback : req.callback
  · simp [Request.limitTo, Turn.limitTo, unlimited, above, callback]
  · simp [Request.limitTo, Turn.limitTo, unlimited, above, callback]

theorem chunkTurn_limitTo (p : Parser) (view : Bytes) (unlimited : req.maxBodySize = 0) (callback : req.callback)
    (positive : m ≠ 0) :
    chunkTurn p (req.limitTo m) view = (chunkTurn p req view).limitTo m ∨
      ∃ n q, chunkTurn p req view = .call q req n ∧ m < p.received + n ∧
        chunkTurn p (req.limitTo m) view = .fail tooLarge q (req.limitTo m) := by
  have line (limit : Nat) (e : Exc) {complete complete' : Line → Turn}
      (same : ∀ line, complete' line = (complete line).limitTo m) :
      lineTurn p (req.limitTo m) limit e view complete' = (lineTurn p req limit e view complete).limitTo m := by
    unfold lineTurn
    split
    · split_ifs <;> rfl
    · exact same _
  unfold chunkTurn
  split_ifs
  · exact .inl rfl
  cases chunk : p.chunk <;> simp only
  case size =>
    refine .inl (line _ _ fun line => ?_)
    unfold sizeLine
    split <;> rfl
  case data =>
    rw [deliver_limitTo p unlimited positive]
    split_ifs with above
    · exact .inr ⟨_, _, deliver_call.mpr ⟨rfl, rfl, rfl, callback, by simp [unlimited]⟩, above, rfl⟩
    · exact .inl rfl
  case dataEnd =>
    left
    fun_cases dataEndTurn p req view <;> simp_all [dataEndTurn, Turn.limitTo]
  case trailers =>
    refine .inl (line _ _ fun line => ?_)
    unfold trailerLine
    split_ifs <;> rfl

theorem chunkTurn_data (filled : view ≠ []) (data : p.chunk = .data) :
    chunkTurn p req view = deliver p req (min p.remaining view.length) := by
  rw [chunkTurn, if_neg filled, data]

theorem chunkTurn_fail_plain {e : Exc} (plain : ¬ (view ≠ [] ∧ p.chunk = .data))
    (turn : chunkTurn p req view = .fail e p' req') : Malformed e := by
  unfold chunkTurn at turn
  split_ifs at turn with empty
  cases chunk : p.chunk <;> simp only [chunk] at turn
  case data => exact absurd ⟨empty, chunk⟩ plain
  case size =>
    rcases lineTurn_fail.mp turn with ⟨-, -, rfl, -⟩ | ⟨line, -, complete⟩
    · exact .bad _
    · unfold sizeLine at complete
      split at complete
      case h_2 => cases complete
      cases complete
      exact chunkSize_error ‹_›
  case dataEnd =>
    unfold dataEndTurn at turn
    repeat' split at turn
    all_goals cases turn
    all_goals exact .bad _
  case trailers =>
    rcases lineTurn_fail.mp turn with ⟨-, -, rfl, -⟩ | ⟨line, -, complete⟩
    · exact .trailers _
    · unfold trailerLine at complete
      split_ifs at complete <;> cases complete
      · exact .trailers _
      · exact .bad _

theorem deliver_error {e : Exc} {size : Nat} (turn : deliver p req size = .fail e p' req') :
    Malformed e ∨ e = tooLarge ∧ req.maxBodySize ≠ 0 := by
  unfold deliver at turn
  split_ifs at turn with above
  · cases turn
    exact .inr ⟨rfl, above.1⟩
  · cases turn
    exact .inl (.bad _)

theorem chunkTurn_error {e : Exc} (turn : chunkTurn p req view = .fail e p' req') :
    Malformed e ∨ e = tooLarge ∧ req.maxBodySize ≠ 0 := by
  by_cases data : view ≠ [] ∧ p.chunk = .data
  · rw [chunkTurn_data data.1 data.2] at turn
    exact deliver_error turn
  · exact .inl (chunkTurn_fail_plain data turn)

theorem chunkTurn_fail_other {e : Exc} (unlimited : req.maxBodySize = 0)
    (turn : chunkTurn p req view = .fail e p' req') : e ≠ tooLarge := by
  rcases chunkTurn_error turn with malformed | ⟨-, limited⟩
  · exact malformed.ne_tooLarge
  · exact absurd unlimited limited

theorem parseChunked_ret (cb : Callback) (pos : Nat) (turn : chunkTurn p req view = .ret p' req' n) :
    parseChunked cb pos p req view = .ok (pos + n, p', req') := by
  rw [parseChunked]
  split <;> cases turn.symm.trans ‹_›
  rfl

theorem parseChunked_fail {e : Exc} (cb : Callback) (pos : Nat) (turn : chunkTurn p req view = .fail e p' req') :
    parseChunked cb pos p req view = .error ⟨e, p', req'⟩ := by
  rw [parseChunked]
  split <;> cases turn.symm.trans ‹_›
  rfl

theorem parseChunked_next (cb : Callback) (pos : Nat) (turn : chunkTurn p req view = .next p' req' n) :
    parseChunked cb pos p req view = parseChunked cb (pos + n) p' req' (view.drop n) := by
  rw [parseChunked]
  split <;> cases turn.symm.trans ‹_›
  rfl

theorem parseChunked_threw {e : Exc} (pos : Nat) (turn : chunkTurn p req view = .call p' req' n)
    (threw : cb req'.delivered (view.take n) = some e) :
    parseChunked cb pos p req view = .error ⟨e, p', req'.receive (view.take n)⟩ := by
  rw [parseChunked]
  split <;> cases turn.symm.trans ‹_›
  simp only [threw]

theorem parseChunked_quiet (pos : Nat) (turn : chunkTurn p req view = .call p' req' n)
    (quiet : cb req'.delivered (view.take n) = none) :
    parseChunked cb pos p req view =
      parseChunked cb (pos + n) (chunkDelivered p' n) (req'.receive (view.take n)) (view.drop n) := by
  rw [parseChunked]
  split <;> cases turn.symm.trans ‹_›
  simp only [quiet]

def cap (m : Nat) (result : Nat × Parser × Request) : Nat × Parser × Request :=
  (result.1, result.2.1, result.2.2.limitTo m)

theorem parseChunked_capped (own : ∀ before piece, cb before piece ≠ some tooLarge) (positive : m ≠ 0)
    (pos : Nat) (req : Request) (view : Bytes) (unlimited : req.maxBodySize = 0) (callback : req.callback)
    (count : p.received = req.handed) (fits : req.handed ≤ m) :
    Capped m (cap m) (·.2.2) (parseChunked cb pos p (req.limitTo m) view) (parseChunked cb pos p req view) := by
  -- the run without the limit leads, turn by turn
  fun_induction parseChunked cb pos p req view with
  | case1 pos p req view q r n turn =>
    rcases chunkTurn_limitTo p view unlimited callback positive with same | ⟨_, _, called, -⟩
    · rw [turn] at same
      rw [parseChunked_ret cb pos same]
      refine Capped.within (a := (pos + n, q, r)) ?_
      rcases chunkTurn_ret turn with ⟨-, rfl, -⟩ | ⟨-, -, rfl, -⟩ <;> exact fits
    · simp [called] at turn
  | case2 pos p req view e q r turn =>
    rcases chunkTurn_limitTo p view unlimited callback positive with same | ⟨_, _, called, -⟩
    · rw [turn] at same
      rw [parseChunked_fail cb pos same]
      obtain rfl := chunkTurn_fail_req turn
      exact .threw (chunkTurn_fail_other unlimited turn) fits
    · simp [called] at turn
  | case3 pos p req view q r n turn ih =>
    rcases chunkTurn_limitTo p view unlimited callback positive with same | ⟨_, _, called, -⟩
    · rw [turn] at same
      rw [parseChunked_next cb pos same]
      obtain ⟨rfl, received, -⟩ := chunkTurn_next_counts turn
      exact ih unlimited callback (received.trans count) fits
    · simp [called] at turn
  | case4 pos p req view q r n turn e threw =>
    obtain ⟨rfl, -, rfl, length, -⟩ := chunkTurn_call_counts turn
    have grown : (r.receive (view.take n)).handed = p.received + n := by
      rw [Request.handed_receive, length, count]
    rcases chunkTurn_limitTo p view unlimited callback positive with same | ⟨_, _, called, above, failed⟩
    · rw [turn] at same
      have room : p.received + n ≤ m := (chunkTurn_call_counts same).2.2.2.2 positive
      rw [parseChunked_threw pos same threw]
      exact .threw (fun large => own _ _ (large ▸ threw)) (grown.trans_le room)
    · cases turn.symm.trans called
      rw [parseChunked_fail cb pos failed]
      exact .beyond fits (above.trans_eq grown.symm)
  | case5 pos p req view q r n turn quiet ih =>
    obtain ⟨rfl, -, rfl, length, -⟩ := chunkTurn_call_counts turn
    have grown : (r.receive (view.take n)).handed = p.received + n := by
      rw [Request.handed_receive, length, count]
    rcases chunkTurn_limitTo p view unlimited callback positive with same | ⟨_, _, called, above, failed⟩
    · rw [turn] at same
      have room : p.received + n ≤ m := (chunkTurn_call_counts same).2.2.2.2 positive
      rw [parseChunked_quiet pos same quiet]
      exact ih unlimited callback grown.symm (grown.trans_le room)
    · cases turn.symm.trans called
      rw [parseChunked_fail cb pos failed]
      exact .beyond fits (lt_of_lt_of_le (above.trans_eq grown.symm) (parseChunked_handed _ _ _ _ _))

end Capping

section Chunked

structure Reception.Counting (t : Reception) : Prop where
  mode : t.parser.body = .chunked
  unlimited : t.req.maxBodySize = 0
  callback : t.req.callback
  count : t.parser.received = t.req.handed

variable {cb : Callback} {t t' : Reception} {data : Bytes} {n m : Nat}

theorem readPiece_completed (cb : Callback) (data : Bytes) (done : t.req.state = .completed) :
    readPiece cb t data = .ok (0, t) := by
  simp [readPiece, parseBody, bodyTurn, done, Except.map]

theorem readPiece_chunked (cb : Callback) (data : Bytes) (mode : t.parser.body = .chunked)
    (running : t.req.state ≠ .completed) :
    readPiece cb t data =
      (parseChunked cb 0 t.parser { t.req with state := .processingBody } data).map
        fun (n, p, req) => (n, ⟨p, req⟩) := by
  simp [readPiece, parseBody, bodyTurn, mode, running]

theorem Reception.Counting.next (counting : t.Counting) (read : readPiece cb t data = .ok (n, t')) :
    t'.Counting := by
  by_cases done : t.req.state = .completed
  · cases (readPiece_completed cb data done).symm.trans read
    exact counting
  · rw [readPiece_chunked cb data counting.mode done] at read
    cases parsed : parseChunked cb 0 t.parser { t.req with state := .processingBody } data with
    | error => simp [parsed, Except.map] at read
    | ok result =>
      rw [parsed] at read
      cases read
      have count : t.parser.received = Request.handed { t.req with state := .processingBody } := counting.count
      obtain ⟨count, mode, callback, limit⟩ := parseChunked_counts count parsed
      exact ⟨mode.trans counting.mode, limit.trans counting.unlimited, callback.trans counting.callback, count⟩

theorem readPiece_handed (cb : Callback) (data : Bytes) (counting : t.Counting) :
    t.req.handed ≤ handed (·.2.req) (readPiece cb t data) := by
  by_cases done : t.req.state = .completed
  · rw [readPiece_completed cb data done, handed]
  · rw [readPiece_chunked cb data counting.mode done, handed_map fun _ => rfl]
    exact parseChunked_handed cb 0 t.parser { t.req with state := .processingBody } data

theorem feedAll_handed (cb : Callback) (counting : t.Counting) (pending : Bytes) (pieces : List Bytes) :
    t.req.handed ≤ handed (·.1.req) (feedAll (readPiece cb) t pending pieces) := by
  induction pieces generalizing t pending with
  | nil => exact Nat.le_refl _
  | cons piece pieces ih =>
    have grows := readPiece_handed cb (pending ++ piece) counting
    cases read : readPiece cb t (pending ++ piece) with
    | error thrown => simpa [feedAll, feed, read, handed] using grows
    | ok result =>
      simp only [feedAll, feed, read]
      rw [read] at grows
      exact grows.trans (ih (counting.next read) _)

theorem readPiece_capped (own : ∀ before piece, cb before piece ≠ some tooLarge) (positive : m ≠ 0)
    (data : Bytes) (counting : t.Counting) (fits : t.req.handed ≤ m) :
    Capped m (fun r => (r.1, r.2.limitTo m)) (·.2.req) (readPiece cb (t.limitTo m) data)
      (readPiece cb t data) := by
  by_cases done : t.req.state = .completed
  · have limited : (t.limitTo m).req.state = .completed := done
    rw [readPiece_completed cb data done, readPiece_completed cb data limited]
    exact .within (a := (0, t)) fits
  · have limited : (t.limitTo m).parser.body = .chunked := counting.mode
    have running : (t.limitTo m).req.state ≠ .completed := done
    rw [readPiece_chunked cb data counting.mode done, readPiece_chunked cb data limited running]
    exact .map (fun _ => rfl) (fun _ => rfl) (parseChunked_capped own positive 0
      { t.req with state := .processingBody } data counting.unlimited counting.callback counting.count fits)

theorem Reception.Counting.feedAll {pending rest : Bytes} {pieces : List Bytes} (counting : t.Counting)
    (fed : feedAll (readPiece cb) t pending pieces = .ok (t', rest)) : t'.Counting :=
  feedAll_invariant (fun counting read => counting.next read) counting fed

theorem feedAll_capped (own : ∀ before piece, cb before piece ≠ some tooLarge) (positive : m ≠ 0)
    (counting : t.Counting) (fits : t.req.handed ≤ m) (pending : Bytes) (pieces : List Bytes) :
    Capped m (fun r => (r.1.limitTo m, r.2)) (·.1.req) (feedAll (readPiece cb) (t.limitTo m) pending pieces)
      (feedAll (readPiece cb) t pending pieces) := by
  induction pieces generalizing t pending with
  | nil => exact .within (a := (t, pending)) fits
  | cons piece pieces ih =>
    have capped := readPiece_capped own positive (pending ++ piece) counting fits
    have grows (n : Nat) (t' : Reception) (read : readPiece cb t (pending ++ piece) = .ok (n, t')) :=
      feedAll_handed cb (counting.next read) ((pending ++ piece).drop n) pieces
    have keeps (n : Nat) (t' : Reception) (read : readPiece cb t (pending ++ piece) = .ok (n, t')) :=
      counting.next read
    simp only [feedAll, feed]
    generalize readPiece cb (t.limitTo m) (pending ++ piece) = limited at capped
    generalize readPiece cb t (pending ++ piece) = result at capped grows keeps
    cases capped with
    | @within a fits => exact ih (keeps _ _ rfl) fits _
    | threw other fits => exact .threw other fits
    | beyond fits exceeds =>
      refine .beyond fits ?_
      cases result with
      | error thrown => exact exceeds
      | ok result => exact lt_of_lt_of_le exceeds (grows _ _ rfl)

end Chunked

section Length

structure Reception.Owing (t : Reception) (n m : Nat) : Prop where
  mode : t.parser.body = .contentLength
  callback : t.req.callback
  limit : t.req.maxBodySize = m
  total : t.parser.remaining + t.parser.received = n
  count : t.parser.received = t.req.handed

variable {cb : Callback} {t t' : Reception} {n m : Nat}

theorem sizeSub_of_le {a b : Nat} (bound : a < sizeMod) (le : b ≤ a) : sizeSub a b = a - b := by
  rw [sizeSub, show a + sizeMod - b = a - b + sizeMod by omega, Nat.add_mod_right, Nat.mod_eq_of_lt (by omega)]

theorem bodyTurn_length {p : Parser} {req : Request} (data : Bytes) (mode : p.body = .contentLength)
    (running : req.state ≠ .completed)
    (passes : ¬ (req.maxBodySize ≠ 0 ∧ p.remaining > sizeSub req.maxBodySize p.received)) :
    bodyTurn p req data =
      if min p.remaining data.length ≠ 0 then
        deliver p { req with state := .processingBody } (min p.remaining data.length)
      else .ret (lengthDelivered p { req with state := .processingBody } 0).1
        (lengthDelivered p { req with state := .processingBody } 0).2 0 := by
  rw [bodyTurn, if_neg (by simp [running, mode]), if_neg (by simp [mode]), if_neg passes]

theorem lengthDelivered_owing (p : Parser) (req : Request) (k : Nat) (mode : p.body = .contentLength)
    (callback : req.callback) (limit : req.maxBodySize = m) (total : p.remaining - k + p.received = n)
    (count : p.received = req.handed) :
    Reception.Owing ⟨(lengthDelivered p req k).1, (lengthDelivered p req k).2⟩ n m := by
  unfold lengthDelivered
  split_ifs <;> exact ⟨mode, callback, limit, total, count⟩

theorem Reception.Owing.read (owing : t.Owing n m) (size : m < sizeMod) (enough : m ≠ 0 → n ≤ m) (cb : Callback)
    (data : Bytes) :
    (∃ k t', readPiece cb t data = .ok (k, t') ∧ t'.Owing n m) ∨
      ∃ thrown, readPiece cb t data = .error thrown ∧ (∃ before piece, cb before piece = some thrown.exc) ∧
        thrown.req.handed ≤ n := by
  have total := owing.total
  by_cases done : t.req.state = .completed
  · exact .inl ⟨0, t, readPiece_completed cb data done, owing⟩
  -- the up-front test lets the body through: what is owed is within what is left of the limit
  have passes : ¬ (t.req.maxBodySize ≠ 0 ∧ t.parser.remaining > sizeSub t.req.maxBodySize t.parser.received) := by
    rw [owing.limit]
    rintro ⟨limited, large⟩
    have := enough limited
    rw [sizeSub_of_le size (by omega)] at large
    omega
  have turn := bodyTurn_length data owing.mode done passes
  by_cases empty : min t.parser.remaining data.length = 0
  · rw [if_neg (not_not.mpr empty)] at turn
    have owing' := lengthDelivered_owing t.parser { t.req with state := .processingBody } 0 owing.mode
      owing.callback owing.limit total owing.count
    refine .inl ⟨0, _, ?_, owing'⟩
    rw [readPiece, parseBody, turn]
    rfl
  obtain ⟨k, eq⟩ : ∃ k, k = min t.parser.remaining data.length := ⟨_, rfl⟩
  have taken : (data.take k).length = k := by rw [List.length_take]; omega
  have called : deliver t.parser { t.req with state := .processingBody } k =
      .call { t.parser with received := t.parser.received + k } { t.req with state := .processingBody } k := by
    refine deliver_call.mpr ⟨rfl, rfl, rfl, owing.callback, fun limited => ?_⟩
    change t.req.maxBodySize ≠ 0 at limited
    change _ ≤ t.req.maxBodySize
    rw [owing.limit] at limited ⊢
    have := enough limited
    omega
  rw [if_pos empty, ← eq, called] at turn
  have grown (req : Request) (same : req.delivered = t.req.delivered) :
      (req.receive (data.take k)).handed = t.parser.received + k := by
    rw [Request.handed_receive, taken, Request.handed, same, owing.count, Request.handed]
  cases answer : cb t.req.delivered (data.take k) with
  | none =>
    have owed : t.parser.remaining - k + (t.parser.received + k) = n := by omega
    have owing' := lengthDelivered_owing { t.parser with received := t.parser.received + k }
      (Request.receive { t.req with state := .processingBody } (data.take k)) k owing.mode owing.callback
      owing.limit owed (grown _ rfl).symm
    refine .inl ⟨k, _, ?_, owing'⟩
    rw [readPiece, parseBody, turn]
    simp only [answer]
    rfl
  | some e =>
    have read : readPiece cb t data = .error ⟨e, { t.parser with received := t.parser.received + k },
        Request.receive { t.req with state := .processingBody } (data.take k)⟩ := by
      rw [readPiece, parseBody, turn]
      simp only [answer]
      rfl
    have fits : t.parser.received + k ≤ n := by omega
    exact .inr ⟨_, read, ⟨_, _, answer⟩, (grown _ rfl).trans_le fits⟩

theorem Reception.Owing.feedAll (owing : t.Owing n m) (size : m < sizeMod) (enough : m ≠ 0 → n ≤ m)
    (cb : Callback) (pending : Bytes) (pieces : List Bytes) :
    (∃ t' rest, feedAll (readPiece cb) t pending pieces = .ok (t', rest) ∧ t'.Owing n m) ∨
      ∃ thrown, feedAll (readPiece cb) t pending pieces = .error thrown ∧
        (∃ before piece, cb before piece = some thrown.exc) ∧ thrown.req.handed ≤ n := by
  induction pieces generalizing t pending with
  | nil => exact .inl ⟨t, pending, rfl, owing⟩
  | cons piece pieces ih =>
    simp only [Shared.feedAll, feed]
    rcases owing.read size enough cb (pending ++ piece) with ⟨k, t', read, owing'⟩ | ⟨thrown, read, threw, fits⟩
    · simp only [read]
      exact ih owing' _
    · simp only [read]
      exact .inr ⟨thrown, rfl, threw, fits⟩

theorem readPiece_refused (cb : Callback) (data : Bytes) (owing : t.Owing n m) (unread : t.parser.received = 0)
    (running : t.req.state ≠ .completed) (positive : m ≠ 0) (size : m < sizeMod) (exceeds : m < n) :
    readPiece cb t data = .error ⟨tooLarge, t.parser, { t.req with state := .processingBody }⟩ := by
  have total := owing.total
  have large : t.req.maxBodySize ≠ 0 ∧ t.parser.remaining > sizeSub t.req.maxBodySize t.parser.received := by
    rw [owing.limit, sizeSub_of_le size (by omega)]
    omega
  rw [readPiece, parseBody, bodyTurn, if_neg (by simp [running, owing.mode]), if_neg (by simp [owing.mode]),
    if_pos large]
  rfl

theorem readPieces_refused (cb : Callback) (piece : Bytes) (pieces : List Bytes) (owing : t.Owing n m)
    (unread : t.parser.received = 0) (running : t.req.state ≠ .completed) (positive : m ≠ 0) (size : m < sizeMod)
    (exceeds : m < n) :
    readPieces cb t (piece :: pieces) =
      .error ⟨tooLarge, t.parser, { t.req with state := .processingBody }⟩ := by
  simp only [readPieces, feedAll, feed, readPiece_refused cb _ owing unread running positive size exceeds]

end Length

section Exact

def registered (p : Parser) (req : Request) (seen m : Nat) : Reception :=
  ⟨{ p with head := .done, headSeen := seen }, req.appendBodyCallback true m⟩

variable {cb : Callback} {p p' : Parser} {req req' : Request} {m : Nat}

theorem registered_cases (m seen : Nat) (finished : finalizeHead p req = .ok (p', req')) (fresh : req.delivered = []) :
    (p.chunked ∧ (registered p' req' seen 0).Counting ∧ (registered p' req' seen 0).req.handed = 0 ∧
      registered p' req' seen m = (registered p' req' seen 0).limitTo m) ∨
    (¬ p.chunked ∧ p.contentLength ≠ 0 ∧ (registered p' req' seen m).Owing p.contentLength m ∧
      (registered p' req' seen m).parser.received = 0 ∧ (registered p' req' seen m).req.delivered = [] ∧
      (registered p' req' seen m).req.state ≠ .completed) ∨
    (¬ p.chunked ∧ p.contentLength = 0 ∧ (registered p' req' seen m).req.state = .completed ∧
      (registered p' req' seen m).parser.received = 0 ∧ (registered p' req' seen m).req.delivered = []) := by
  unfold finalizeHead at finished
  split_ifs at finished with both chunked length <;> cases finished
  · exact .inl ⟨chunked, ⟨rfl, rfl, rfl, by simp [registered, Request.appendBodyCallback, Request.handed, fresh]⟩,
      by simp [registered, Request.appendBodyCallback, Request.handed, fresh], rfl⟩
  · exact .inr (.inl ⟨chunked, length, ⟨rfl, rfl, rfl, rfl,
      by simp [registered, Request.appendBodyCallback, Request.handed, fresh]⟩, rfl, fresh, by simp [registered,
        Request.appendBodyCallback]⟩)
  · exact .inr (.inr ⟨chunked, not_not.mp length, rfl, rfl, fresh⟩)

theorem feedAll_completed (cb : Callback) {t : Reception} (done : t.req.state = .completed) (pieces : List Bytes) :
    readPieces cb t pieces = .ok (t, pieces.flatten) :=
  feedAll_idle (fun data => readPiece_completed cb data done) [] pieces

-- The limit is exact as long as the counter has no bound.
theorem limit_exact (seen : Nat) (own : ∀ before piece, cb before piece ≠ some tooLarge) (positive : 1 ≤ m)
    (size : m < sizeMod) (finished : finalizeHead p req = .ok (p', req')) (fresh : req.delivered = [])
    (pieces : List Bytes) :
    handed (·.1.req) (readPieces cb (registered p' req' seen m) pieces) ≤ m ∧
    (¬ p.chunked →
      (m < p.contentLength → pieces ≠ [] →
        ∃ thrown, readPieces cb (registered p' req' seen m) pieces = .error thrown ∧
          thrown.exc = tooLarge ∧ thrown.req.delivered = []) ∧
      (p.contentLength ≤ m → ¬ Rejected (readPieces cb (registered p' req' seen m) pieces))) ∧
    (p.chunked →
      (Rejected (readPieces cb (registered p' req' seen m) pieces) ↔
        m < handed (·.1.req) (readPieces cb (registered p' req' seen 0) pieces))) ∧
    ∀ k t rest, readPieces cb (registered p' req' seen m) (pieces.take k) = .ok (t, rest) →
      t.parser.received ≤ m ∧ sizeSub m t.parser.received = m - t.parser.received := by
  have positive : m ≠ 0 := by omega
  have safe {r : Nat} (le : r ≤ m) : r ≤ m ∧ sizeSub m r = m - r := ⟨le, sizeSub_of_le size le⟩
  rcases registered_cases m seen finished fresh with
    ⟨chunked, counting, none, eq⟩ | ⟨plain, length, owing, unread, untouched, running⟩ |
    ⟨plain, length, done, unread, untouched⟩
  · -- a chunked body: the reading without a limit tells what has been received
    have capped (pieces : List Bytes) := feedAll_capped own positive counting (by omega) [] pieces
    simp only [readPieces, eq]
    refine ⟨(capped pieces).handed_le fun _ => rfl, fun plain => absurd chunked plain, fun _ => (capped pieces).rejected_iff, ?_⟩
    intro k t rest read
    obtain ⟨⟨t₀, rest₀⟩, read₀, same, fits⟩ := (read ▸ capped (pieces.take k)).of_ok
    cases same
    exact safe ((counting.feedAll read₀).count.trans_le fits)
  · rcases Nat.lt_or_ge m p.contentLength with exceeds | enough
    · have refused (piece : Bytes) (pieces : List Bytes) :=
        readPieces_refused cb piece pieces owing unread running positive size exceeds
      have nothing : (registered p' req' seen m).req.handed = 0 := by simp [Request.handed, untouched]
      refine ⟨?_, fun _ => ⟨fun _ filled => ?_, fun enough => absurd exceeds (by omega)⟩,
        fun chunked => absurd chunked plain, fun k t rest read => ?_⟩
      · cases pieces with
        | nil => exact nothing.trans_le (Nat.zero_le m)
        | cons piece pieces =>
          rw [refused]
          exact nothing.trans_le (Nat.zero_le m)
      · obtain ⟨piece, more, rfl⟩ := List.exists_cons_of_ne_nil filled
        exact ⟨_, refused piece more, rfl, untouched⟩
      · cases taken : pieces.take k with
        | nil =>
          rw [taken] at read
          cases read
          exact safe (by omega)
        | cons piece more =>
          rw [taken, refused] at read
          cases read
    · have outcome (pieces : List Bytes) := owing.feedAll size (fun _ => enough) cb [] pieces
      refine ⟨?_, fun _ => ⟨fun exceeds => absurd exceeds (by omega), fun _ => ?_⟩,
        fun chunked => absurd chunked plain, fun k t rest read => ?_⟩
      · rcases outcome pieces with ⟨t, rest, read, owing'⟩ | ⟨thrown, read, -, fits⟩
        · have := owing'.total
          have := owing'.count
          simp only [readPieces, read, handed]
          omega
        · simp only [readPieces, read, handed]
          omega
      · rcases outcome pieces with ⟨t, rest, read, -⟩ | ⟨thrown, read, ⟨before, piece, threw⟩, -⟩
        · simp [readPieces, read, Rejected]
        · intro rejected
          rw [readPieces, read] at rejected
          exact own before piece (rejected ▸ threw)
      · rcases outcome (pieces.take k) with ⟨t', rest', read', owing'⟩ | ⟨thrown, read', -, -⟩
        · cases read'.symm.trans read
          have := owing'.total
          exact safe (by omega)
        · cases read'.symm.trans read
  · have read := feedAll_completed cb done
    refine ⟨by simp [read, handed, Request.handed, untouched], fun _ => ⟨by omega, fun _ => ?_⟩,
      fun chunked => absurd chunked plain, fun k t rest read => ?_⟩
    · simp [read, Rejected]
    · cases (feedAll_completed cb done (pieces.take k)).symm.trans read
      exact safe (by omega)

end Exact

end Dracon
