import Dracon.Http.BodyLimit

set_option autoImplicit false

namespace Dracon

open Shared

-- `deliver` with `m_received` as it is: a `size_t`
def deliverSized (p : Parser) (req : Request) (size : Nat) : Turn :=
  if req.maxBodySize ≠ 0 ∧ (p.received + size) % sizeMod > req.maxBodySize then
    .fail tooLarge { p with received := (p.received + size) % sizeMod } req
  else if !req.callback then
    .fail (fail 400 "unexpected body") { p with received := (p.received + size) % sizeMod } req
  else .call { p with received := (p.received + size) % sizeMod } req size

def chunkTurnSized (p : Parser) (req : Request) (view : Bytes) : Turn :=
  if view ≠ [] ∧ p.chunk = .data then deliverSized p req (min p.remaining view.length)
  else chunkTurn p req view

def bodyTurnSized (p : Parser) (req : Request) (data : Bytes) : Turn :=
  if req.state = .completed ∨ p.body ≠ .contentLength then bodyTurn p req data
  else if req.maxBodySize ≠ 0 ∧ p.remaining > sizeSub req.maxBodySize p.received then bodyTurn p req data
  else if min p.remaining data.length = 0 then bodyTurn p req data
  else deliverSized p { req with state := .processingBody } (min p.remaining data.length)

section Turns

variable {p p' : Parser} {req req' : Request} {view data : Bytes} {n size : Nat}

theorem deliverSized_call : deliverSized p req size = .call p' req' n ↔
    n = size ∧ p' = { p with received := (p.received + size) % sizeMod } ∧ req' = req ∧ req.callback ∧
      (req.maxBodySize ≠ 0 → (p.received + size) % sizeMod ≤ req.maxBodySize) := by
  unfold deliverSized
  split_ifs <;> simp_all
  grind

theorem deliverSized_ne_next (p p' : Parser) (req req' : Request) (size n : Nat) :
    deliverSized p req size ≠ .next p' req' n := by
  unfold deliverSized
  split_ifs <;> simp

theorem deliverSized_eq (fits : p.received + size < sizeMod) : deliverSized p req size = deliver p req size := by
  simp [deliverSized, deliver, Nat.mod_eq_of_lt fits, tooLarge]

theorem chunkTurnSized_next_bound (turn : chunkTurnSized p req view = .next p' req' n) : 0 < n ∧ n ≤ view.length := by
  unfold chunkTurnSized at turn
  split_ifs at turn
  · exact absurd turn (deliverSized_ne_next _ _ _ _ _ _)
  · exact chunkTurn_next_bound turn

theorem chunkTurnSized_call (turn : chunkTurnSized p req view = .call p' req' n) :
    view ≠ [] ∧ p.chunk = .data ∧ deliverSized p req (min p.remaining view.length) = .call p' req' n := by
  unfold chunkTurnSized at turn
  split_ifs at turn with here
  · exact ⟨here.1, here.2, turn⟩
  · obtain ⟨filled, data, -⟩ := chunkTurn_call.mp turn
    exact absurd ⟨filled, data⟩ here

theorem chunkTurnSized_plain (plain : ¬ (view ≠ [] ∧ p.chunk = .data)) :
    chunkTurnSized p req view = chunkTurn p req view := if_neg plain

theorem chunkTurnSized_eq (fits : p.chunk = .data → p.received + min p.remaining view.length < sizeMod) :
    chunkTurnSized p req view = chunkTurn p req view := by
  unfold chunkTurnSized
  split_ifs with here
  · rw [deliverSized_eq (fits here.2), chunkTurn_data here.1 here.2]
  · rfl

end Turns

def parseChunkedSized (cb : Callback) (pos : Nat) (p : Parser) (req : Request) (view : Bytes) :
    Except Thrown (Nat × Parser × Request) :=
  match _turn : chunkTurnSized p req view with
  | .ret p req n => .ok (pos + n, p, req)
  | .fail e p req => .error ⟨e, p, req⟩
  | .next p req n => parseChunkedSized cb (pos + n) p req (view.drop n)
  | .call p req n =>
    match cb req.delivered (view.take n) with
    | some e => .error ⟨e, p, req.receive (view.take n)⟩
    | none =>
      parseChunkedSized cb (pos + n) (chunkDelivered p n) (req.receive (view.take n)) (view.drop n)
termination_by 2 * view.length + p.chunk.rank
decreasing_by
  · have := chunkTurnSized_next_bound _turn
    have rank (c : Chunk) : c.rank ≤ 1 := by unfold Chunk.rank; split <;> omega
    have := rank p.chunk
    simp
    omega
  · obtain ⟨filled, data, delivering⟩ := chunkTurnSized_call _turn
    obtain ⟨rfl, rfl, -⟩ := deliverSized_call.mp delivering
    have := List.length_pos_iff.mpr filled
    simp only [chunkDelivered, data, Chunk.rank, List.length_drop]
    split_ifs <;> simp_all
    omega

def parseBodySized (cb : Callback) (p : Parser) (data : Bytes) (req : Request) :
    Except Thrown (Nat × Parser × Request) :=
  match bodyTurnSized p req data with
  | .ret p req n => .ok (n, p, req)
  | .fail e p req => .error ⟨e, p, req⟩
  | .next p req n => parseChunkedSized cb n p req (data.drop n)
  | .call p req n =>
    match cb req.delivered (data.take n) with
    | some e => .error ⟨e, p, req.receive (data.take n)⟩
    | none => .ok (n, lengthDelivered p (req.receive (data.take n)) n)

def readPieceSized (cb : Callback) (t : Reception) (data : Bytes) : Except Thrown (Nat × Reception) :=
  (parseBodySized cb t.parser data t.req).map fun (n, p, req) => (n, ⟨p, req⟩)

def readPiecesSized (cb : Callback) (t : Reception) (pieces : List Bytes) : Except Thrown (Reception × Bytes) :=
  feedAll (readPieceSized cb) t [] pieces

-- The limit is exceeded, and the counter wraps to a number within it.
def Wraps {α : Type} (m : Nat) : Except Thrown α → Prop
  | .error thrown => thrown.exc = tooLarge ∧ m < thrown.parser.received ∧ thrown.parser.received % sizeMod ≤ m
  | .ok _ => False

def Thrown.seen (thrown : Thrown) : Exc × Request := (thrown.exc, thrown.req)

section Results

variable {α : Type} {m : Nat} {request : α → Request} {sized result : Except Thrown α}

theorem handed_congr (same : sized.mapError Thrown.seen = result.mapError Thrown.seen) :
    handed request sized = handed request result := by
  cases sized <;> cases result <;> simp_all [Except.mapError, handed, Thrown.seen]

theorem rejected_congr (same : sized.mapError Thrown.seen = result.mapError Thrown.seen) :
    Rejected sized ↔ Rejected result := by
  cases sized <;> cases result <;> simp_all [Except.mapError, Rejected, Thrown.seen]

theorem ok_of_congr {a : α} (same : sized.mapError Thrown.seen = result.mapError Thrown.seen) (ok : sized = .ok a) :
    result = .ok a := by
  subst ok
  cases result <;> simp_all [Except.mapError]

theorem error_of_congr {thrown : Thrown} (same : sized.mapError Thrown.seen = result.mapError Thrown.seen)
    (threw : result = .error thrown) :
    ∃ other, sized = .error other ∧ other.exc = thrown.exc ∧ other.req = thrown.req := by
  subst threw
  cases sized <;> simp_all [Except.mapError, Thrown.seen]

-- The machine and the unbounded counter agree, or the machine goes on beyond the limit.
def Follows (m : Nat) (request : α → Request) (sized result : Except Thrown α) : Prop :=
  sized.mapError Thrown.seen = result.mapError Thrown.seen ∧ ¬ Wraps m result ∨
    Wraps m result ∧ m < handed request sized

theorem Follows.refl (calm : ¬ Wraps m result) : Follows m request result result := .inl ⟨rfl, calm⟩

theorem wraps_map {β : Type} (f : α → β) : Wraps m (result.map f) ↔ Wraps m result := by
  cases result <;> rfl

theorem Follows.map {β : Type} {request' : β → Request} {f : α → β} (same : ∀ a, request' (f a) = request a)
    (follows : Follows m request sized result) : Follows m request' (sized.map f) (result.map f) := by
  rw [Follows, wraps_map, handed_map same]
  refine follows.imp_left (And.imp_left fun seen => ?_)
  cases sized <;> cases result <;> simp_all [Except.map, Except.mapError]

end Results

section Chunked

variable {cb : Callback} {p p' : Parser} {req req' : Request} {view : Bytes} {pos n m : Nat}

theorem parseChunkedSized_ret (cb : Callback) (pos : Nat) (turn : chunkTurnSized p req view = .ret p' req' n) :
    parseChunkedSized cb pos p req view = .ok (pos + n, p', req') := by
  rw [parseChunkedSized]
  split <;> cases turn.symm.trans ‹_›
  rfl

theorem parseChunkedSized_fail {e : Exc} (cb : Callback) (pos : Nat)
    (turn : chunkTurnSized p req view = .fail e p' req') :
    parseChunkedSized cb pos p req view = .error ⟨e, p', req'⟩ := by
  rw [parseChunkedSized]
  split <;> cases turn.symm.trans ‹_›
  rfl

theorem parseChunkedSized_next (cb : Callback) (pos : Nat) (turn : chunkTurnSized p req view = .next p' req' n) :
    parseChunkedSized cb pos p req view = parseChunkedSized cb (pos + n) p' req' (view.drop n) := by
  rw [parseChunkedSized]
  split <;> cases turn.symm.trans ‹_›
  rfl

theorem parseChunkedSized_threw {e : Exc} (pos : Nat) (turn : chunkTurnSized p req view = .call p' req' n)
    (threw : cb req'.delivered (view.take n) = some e) :
    parseChunkedSized cb pos p req view = .error ⟨e, p', req'.receive (view.take n)⟩ := by
  rw [parseChunkedSized]
  split <;> cases turn.symm.trans ‹_›
  simp only [threw]

theorem parseChunkedSized_quiet (pos : Nat) (turn : chunkTurnSized p req view = .call p' req' n)
    (quiet : cb req'.delivered (view.take n) = none) :
    parseChunkedSized cb pos p req view =
      parseChunkedSized cb (pos + n) (chunkDelivered p' n) (req'.receive (view.take n)) (view.drop n) := by
  rw [parseChunkedSized]
  split <;> cases turn.symm.trans ‹_›
  simp only [quiet]

theorem chunkTurnSized_req (turn : chunkTurnSized p req view = .next p' req' n ∨
    chunkTurnSized p req view = .call p' req' n) : req' = req := by
  obtain turn | turn := turn
  · unfold chunkTurnSized at turn
    split_ifs at turn
    · exact absurd turn (deliverSized_ne_next _ _ _ _ _ _)
    · exact (chunkTurn_next_counts turn).1
  · exact (deliverSized_call.mp (chunkTurnSized_call turn).2.2).2.2.1

theorem parseChunkedSized_handed (cb : Callback) (pos : Nat) (p : Parser) (req : Request) (view : Bytes) :
    req.handed ≤ handed (·.2.2) (parseChunkedSized cb pos p req view) := by
  fun_induction parseChunkedSized cb pos p req view with
  | case1 pos p req view q r m turn =>
    unfold chunkTurnSized at turn
    split_ifs at turn
    · unfold deliverSized at turn
      split_ifs at turn
    · rcases chunkTurn_ret turn with ⟨rfl, rfl, -⟩ | ⟨-, rfl, rfl, -⟩ <;> exact Nat.le_refl _
  | case2 pos p req view e q r turn =>
    unfold chunkTurnSized at turn
    split_ifs at turn
    · unfold deliverSized at turn
      split_ifs at turn <;> cases turn <;> exact Nat.le_refl _
    · rw [chunkTurn_fail_req turn, handed]
  | case3 pos p req view q r m turn ih =>
    obtain rfl := chunkTurnSized_req (.inl turn)
    exact ih
  | case4 pos p req view q r m turn e threw =>
    obtain rfl := chunkTurnSized_req (.inr turn)
    simp [handed, Request.handed_receive]
  | case5 pos p req view q r m turn _ ih =>
    obtain rfl := chunkTurnSized_req (.inr turn)
    rw [Request.handed_receive] at ih
    omega

theorem parseChunkedSized_delivers (cb : Callback) (pos : Nat) (turn : chunkTurnSized p req view = .call p' req' n) :
    req'.handed + (view.take n).length ≤ handed (·.2.2) (parseChunkedSized cb pos p req view) := by
  rw [← Request.handed_receive]
  cases called : cb req'.delivered (view.take n) with
  | some e => rw [parseChunkedSized_threw pos turn called, handed]
  | none =>
    rw [parseChunkedSized_quiet pos turn called]
    exact parseChunkedSized_handed _ _ _ _ _

theorem deliver_refused {e : Exc} {size : Nat} (callback : req.callback) (limit : req.maxBodySize = m)
    (refused : deliver p req size = .fail e p' req') :
    e = tooLarge ∧ m < p.received + size ∧ p' = { p with received := p.received + size } ∧ req' = req := by
  unfold deliver at refused
  split_ifs at refused with above
  · cases refused
    exact ⟨rfl, limit ▸ above.2, rfl, rfl⟩
  · simp_all

theorem parseChunked_follows (limit : req.maxBodySize = m) (positive : m ≠ 0) (small : m < sizeMod)
    (callback : req.callback) (count : p.received = req.handed) (fits : req.handed ≤ m)
    (own : ∀ before piece, cb before piece ≠ some tooLarge) :
    Follows m (·.2.2) (parseChunkedSized cb pos p req view) (parseChunked cb pos p req view) := by
  -- a turn in which the counter does not get to 2^64 is the same in both
  have agree {p : Parser} {req : Request} {view : Bytes} {p' : Parser} {req' : Request} {n : Nat}
      (limit : req.maxBodySize = m) (turn : chunkTurn p req view = .call p' req' n) :
      chunkTurnSized p req view = .call p' req' n := by
    obtain ⟨rfl, rfl, rfl, -, room⟩ := chunkTurn_call_counts turn
    rw [chunkTurnSized_eq fun _ => by have := room (limit ▸ positive); omega, turn]
  fun_induction parseChunked cb pos p req view with
  | case1 pos p req view q r n turn =>
    have plain : ¬ (view ≠ [] ∧ p.chunk = .data) := fun data =>
      deliver_ne_ret _ ((chunkTurn_data data.1 data.2).symm.trans turn)
    rw [parseChunkedSized_ret cb pos ((chunkTurnSized_plain plain).trans turn)]
    exact .refl id
  | case2 pos p req view e q r turn =>
    by_cases data : view ≠ [] ∧ p.chunk = .data
    · rw [chunkTurn_data data.1 data.2] at turn
      obtain ⟨rfl, above, rfl, rfl⟩ := deliver_refused callback limit turn
      have taken : (view.take (min p.remaining view.length)).length = min p.remaining view.length := by simp
      let wrapped : Parser := { p with received := (p.received + min p.remaining view.length) % sizeMod }
      by_cases wraps : (p.received + min p.remaining view.length) % sizeMod ≤ m
      · have called : chunkTurnSized p r view = .call wrapped r (min p.remaining view.length) := by
          rw [chunkTurnSized, if_pos data]
          exact deliverSized_call.mpr ⟨rfl, rfl, rfl, callback, fun _ => limit ▸ wraps⟩
        have delivers := parseChunkedSized_delivers cb pos called
        exact .inr ⟨⟨rfl, above, wraps⟩, by omega⟩
      · have failed : chunkTurnSized p r view = .fail tooLarge wrapped r := by
          rw [chunkTurnSized, if_pos data, deliverSized, if_pos ⟨limit ▸ positive, limit ▸ not_le.mp wraps⟩]
        rw [parseChunkedSized_fail cb pos failed]
        exact .inl ⟨rfl, fun wrapped => wraps wrapped.2.2⟩
    · rw [parseChunkedSized_fail cb pos ((chunkTurnSized_plain data).trans turn)]
      exact .refl fun wraps => (chunkTurn_fail_plain data turn).ne_tooLarge wraps.1
  | case3 pos p req view q r n turn ih =>
    have plain : ¬ (view ≠ [] ∧ p.chunk = .data) := fun data =>
      deliver_ne_next _ _ _ _ _ _ ((chunkTurn_data data.1 data.2).symm.trans turn)
    rw [parseChunkedSized_next cb pos ((chunkTurnSized_plain plain).trans turn)]
    obtain ⟨rfl, received, -⟩ := chunkTurn_next_counts turn
    exact ih limit callback (received.trans count) fits
  | case4 pos p req view q r n turn e threw =>
    rw [parseChunkedSized_threw pos (agree limit turn) threw]
    refine .refl fun wraps => own r.delivered (view.take n) ?_
    rw [threw, show e = tooLarge from wraps.1]
  | case5 pos p req view q r n turn quiet ih =>
    rw [parseChunkedSized_quiet pos (agree limit turn) quiet]
    obtain ⟨rfl, -, rfl, length, room⟩ := chunkTurn_call_counts turn
    have grown : (r.receive (view.take n)).handed = p.received + n := by
      rw [Request.handed_receive, length, count]
    exact ih limit callback grown.symm (grown.trans_le (limit ▸ room (limit ▸ positive)))

theorem parseChunked_within (limit : req.maxBodySize = m) (positive : m ≠ 0) (count : p.received = req.handed)
    (fits : req.handed ≤ m) (parsed : parseChunked cb pos p req view = .ok (n, p', req')) : req'.handed ≤ m := by
  fun_induction parseChunked cb pos p req view with
  | case1 pos p req view q r k turn =>
    cases parsed
    rcases chunkTurn_ret turn with ⟨-, rfl, -⟩ | ⟨-, -, rfl, -⟩ <;> exact fits
  | case2 | case4 => cases parsed
  | case3 pos p req view q r k turn ih =>
    obtain ⟨rfl, received, -⟩ := chunkTurn_next_counts turn
    exact ih limit (received.trans count) fits parsed
  | case5 pos p req view q r k turn _ ih =>
    obtain ⟨rfl, -, rfl, length, room⟩ := chunkTurn_call_counts turn
    have grown : (r.receive (view.take k)).handed = p.received + k := by
      rw [Request.handed_receive, length, count]
    exact ih limit grown.symm (grown.trans_le (limit ▸ room (limit ▸ positive))) parsed

end Chunked

section Readings

structure Reception.Limited (t : Reception) (m : Nat) : Prop where
  mode : t.parser.body = .chunked
  limit : t.req.maxBodySize = m
  callback : t.req.callback
  count : t.parser.received = t.req.handed
  fits : t.req.handed ≤ m

variable {cb : Callback} {t t' : Reception} {data : Bytes} {n m : Nat}

def Turn.req : Turn → Request
  | .ret _ req _ | .next _ req _ | .call _ req _ | .fail _ _ req => req

theorem bodyTurnSized_req (p : Parser) (req : Request) (data : Bytes) :
    (bodyTurnSized p req data).req.delivered = req.delivered := by
  unfold bodyTurnSized bodyTurn deliverSized deliver lengthDelivered
  dsimp only
  split_ifs <;> rfl

theorem readPieceSized_handed (cb : Callback) (t : Reception) (data : Bytes) :
    t.req.handed ≤ handed (·.2.req) (readPieceSized cb t data) := by
  have kept := bodyTurnSized_req t.parser t.req data
  rw [readPieceSized, handed_map fun _ => rfl, Request.handed, ← kept]
  unfold parseBodySized
  split
  next turn => rw [turn]; exact Nat.le_refl _
  next turn => rw [turn]; exact Nat.le_refl _
  next turn => rw [turn]; exact parseChunkedSized_handed _ _ _ _ _
  next p req k turn =>
    rw [turn]
    have grown : req.handed ≤ (req.receive (data.take k)).handed := by
      rw [Request.handed_receive]
      exact Nat.le_add_right _ _
    split
    · exact grown
    · refine grown.trans (Nat.le_of_eq ?_)
      simp only [handed, lengthDelivered]
      split_ifs <;> rfl

theorem feedAllSized_handed (cb : Callback) (t : Reception) (pending : Bytes) (pieces : List Bytes) :
    t.req.handed ≤ handed (·.1.req) (feedAll (readPieceSized cb) t pending pieces) := by
  induction pieces generalizing t pending with
  | nil => exact Nat.le_refl _
  | cons piece pieces ih =>
    have grows := readPieceSized_handed cb t (pending ++ piece)
    cases read : readPieceSized cb t (pending ++ piece) with
    | error thrown => simpa [feedAll, feed, read, handed] using grows
    | ok result =>
      simp only [feedAll, feed, read]
      rw [read] at grows
      exact grows.trans (ih _ _)

theorem readPieceSized_completed (cb : Callback) (data : Bytes) (done : t.req.state = .completed) :
    readPieceSized cb t data = .ok (0, t) := by
  simp [readPieceSized, parseBodySized, bodyTurnSized, bodyTurn, done, Except.map]

theorem readPieceSized_chunked (cb : Callback) (data : Bytes) (mode : t.parser.body = .chunked)
    (running : t.req.state ≠ .completed) :
    readPieceSized cb t data =
      (parseChunkedSized cb 0 t.parser { t.req with state := .processingBody } data).map
        fun (n, p, req) => (n, ⟨p, req⟩) := by
  simp [readPieceSized, parseBodySized, bodyTurnSized, bodyTurn, mode, running]

theorem Reception.Limited.next (limited : t.Limited m) (positive : m ≠ 0) (read : readPiece cb t data = .ok (n, t')) :
    t'.Limited m := by
  by_cases done : t.req.state = .completed
  · cases (readPiece_completed cb data done).symm.trans read
    exact limited
  · rw [readPiece_chunked cb data limited.mode done] at read
    cases parsed : parseChunked cb 0 t.parser { t.req with state := .processingBody } data with
    | error => simp [parsed, Except.map] at read
    | ok result =>
      rw [parsed] at read
      cases read
      have count : t.parser.received = Request.handed { t.req with state := .processingBody } := limited.count
      have limit : Request.maxBodySize { t.req with state := .processingBody } = m := limited.limit
      have within := parseChunked_within limit positive count limited.fits parsed
      obtain ⟨count, mode, callback, same⟩ := parseChunked_counts count parsed
      exact ⟨mode.trans limited.mode, same.trans limited.limit, callback.trans limited.callback, count, within⟩

theorem readPiece_follows (own : ∀ before piece, cb before piece ≠ some tooLarge) (positive : m ≠ 0) (small : m < sizeMod)
    (data : Bytes) (limited : t.Limited m) :
    Follows m (·.2.req) (readPieceSized cb t data) (readPiece cb t data) := by
  by_cases done : t.req.state = .completed
  · rw [readPiece_completed cb data done, readPieceSized_completed cb data done]
    exact .refl id
  · rw [readPiece_chunked cb data limited.mode done, readPieceSized_chunked cb data limited.mode done]
    have limit : Request.maxBodySize { t.req with state := .processingBody } = m := limited.limit
    exact .map (fun _ => rfl) (parseChunked_follows limit positive small limited.callback limited.count limited.fits own)

theorem feedAll_follows (own : ∀ before piece, cb before piece ≠ some tooLarge) (positive : m ≠ 0) (small : m < sizeMod)
    (limited : t.Limited m) (pending : Bytes) (pieces : List Bytes) :
    Follows m (·.1.req) (feedAll (readPieceSized cb) t pending pieces) (feedAll (readPiece cb) t pending pieces) := by
  induction pieces generalizing t pending with
  | nil => exact .refl id
  | cons piece pieces ih =>
    have follows := readPiece_follows own positive small (pending ++ piece) limited
    simp only [feedAll, feed]
    cases read : readPiece cb t (pending ++ piece) with
    | ok result =>
      obtain ⟨same, -⟩ | ⟨wraps, -⟩ := read ▸ follows
      · have sized : readPieceSized cb t (pending ++ piece) = .ok result := by
          cases other : readPieceSized cb t (pending ++ piece) <;> simp_all [Except.mapError]
        rw [sized]
        exact ih (limited.next positive read) _
      · cases wraps
    | error thrown =>
      obtain ⟨same, calm⟩ | ⟨wraps, above⟩ := read ▸ follows
      · obtain ⟨other, sized, exc, req⟩ := error_of_congr same rfl
        rw [sized]
        exact .inl ⟨by simp [Except.mapError, Thrown.seen, exc, req], calm⟩
      · refine .inr ⟨wraps, above.trans_le ?_⟩
        cases readPieceSized cb t (pending ++ piece) with
        | error other => exact Nat.le_refl _
        | ok result => exact feedAllSized_handed cb result.2 _ _

end Readings

section Length

variable {cb : Callback} {t : Reception} {n m : Nat}

theorem bodyTurnSized_eq {p : Parser} {req : Request} {data : Bytes}
    (fits : p.received + min p.remaining data.length < sizeMod) : bodyTurnSized p req data = bodyTurn p req data := by
  unfold bodyTurnSized
  split_ifs with other large nothing
  · rfl
  · rfl
  · rfl
  · obtain ⟨running, mode⟩ := not_or.mp other
    rw [deliverSized_eq fits, bodyTurn_length data (not_not.mp mode) running large, if_pos nothing]

theorem readPieceSized_length (cb : Callback) (data : Bytes) (mode : t.parser.body = .contentLength)
    (same : bodyTurnSized t.parser t.req data = bodyTurn t.parser t.req data) :
    readPieceSized cb t data = readPiece cb t data := by
  rw [readPieceSized, readPiece, parseBodySized, parseBody, same]
  cases turn : bodyTurn t.parser t.req data with
  | next p req k =>
    unfold bodyTurn deliver at turn
    dsimp only at turn
    split_ifs at turn
    simp_all
  | _ => rfl

theorem feedAllSized_length (owing : t.Owing n m) (size : m < sizeMod) (enough : n ≤ m) (cb : Callback)
    (pending : Bytes) (pieces : List Bytes) :
    feedAll (readPieceSized cb) t pending pieces = feedAll (readPiece cb) t pending pieces := by
  induction pieces generalizing t pending with
  | nil => rfl
  | cons piece pieces ih =>
    have total := owing.total
    have same : readPieceSized cb t (pending ++ piece) = readPiece cb t (pending ++ piece) :=
      readPieceSized_length cb _ owing.mode (bodyTurnSized_eq (by omega))
    simp only [feedAll, feed, same]
    rcases owing.read size (fun _ => enough) cb (pending ++ piece) with ⟨k, t', read, owing'⟩ | ⟨thrown, read, -⟩
    · simp only [read]
      exact ih owing' _
    · simp only [read]

theorem readPieceSized_refused (cb : Callback) (data : Bytes) (owing : t.Owing n m) (unread : t.parser.received = 0)
    (positive : m ≠ 0) (size : m < sizeMod) (exceeds : m < n) : readPieceSized cb t data = readPiece cb t data := by
  have total := owing.total
  have large : t.req.maxBodySize ≠ 0 ∧ t.parser.remaining > sizeSub t.req.maxBodySize t.parser.received := by
    rw [owing.limit, sizeSub_of_le size (by omega)]
    omega
  refine readPieceSized_length cb data owing.mode ?_
  unfold bodyTurnSized
  split_ifs <;> rfl

end Length

section Short

variable {cb : Callback} {p p' : Parser} {req req' : Request} {t : Reception} {view data : Bytes} {pos n m : Nat}

theorem deliver_fail_received {e : Exc} {size : Nat} (turn : deliver p req size = .fail e p' req') :
    p'.received = p.received + size := by
  unfold deliver at turn
  split_ifs at turn
  · cases turn
    rfl
  · cases turn
    rfl

theorem chunkTurn_tooLarge (turn : chunkTurn p req view = .fail tooLarge p' req') :
    p'.received ≤ p.received + view.length := by
  by_cases data : view ≠ [] ∧ p.chunk = .data
  · rw [chunkTurn_data data.1 data.2] at turn
    rw [deliver_fail_received turn]
    omega
  · exact absurd rfl (chunkTurn_fail_plain data turn).ne_tooLarge

theorem bodyTurn_fail_received {e : Exc} (turn : bodyTurn p req data = .fail e p' req') :
    p'.received ≤ p.received + data.length := by
  unfold bodyTurn at turn
  split_ifs at turn
  · cases turn
    omega
  · rw [deliver_fail_received turn]
    omega

theorem bodyTurn_call_received (turn : bodyTurn p req data = .call p' req' n) : p'.received ≤ p.received + data.length := by
  unfold bodyTurn at turn
  split_ifs at turn
  obtain ⟨-, rfl, -⟩ := deliver_call.mp turn
  dsimp only
  omega

theorem parseChunked_received (parsed : parseChunked cb pos p req view = .ok (n, p', req')) :
    p'.received + pos ≤ p.received + n := by
  fun_induction parseChunked cb pos p req view with
  | case1 pos p req view q r k turn =>
    cases parsed
    rcases chunkTurn_ret turn with ⟨rfl, -⟩ | ⟨-, rfl, -⟩ <;> omega
  | case2 | case4 => cases parsed
  | case3 pos p req view q r k turn ih =>
    obtain ⟨-, same, -⟩ := chunkTurn_next_counts turn
    have := ih parsed
    omega
  | case5 pos p req view q r k turn _ ih =>
    obtain ⟨-, -, rfl, -⟩ := chunkTurn_call_counts turn
    have : p'.received + (pos + k) ≤ p.received + k + n := ih parsed
    omega

theorem parseChunked_tooLarge {thrown : Thrown} (large : thrown.exc = tooLarge)
    (failed : parseChunked cb pos p req view = .error thrown) : thrown.parser.received ≤ p.received + view.length := by
  fun_induction parseChunked cb pos p req view with
  | case1 => cases failed
  | case2 pos p req view e q r turn =>
    cases failed
    obtain rfl : e = tooLarge := large
    exact chunkTurn_tooLarge turn
  | case3 pos p req view q r k turn ih =>
    obtain ⟨-, same, -⟩ := chunkTurn_next_counts turn
    have := ih failed
    rw [List.length_drop] at this
    omega
  | case4 pos p req view q r k turn e threw =>
    cases failed
    obtain ⟨-, rfl, rfl, -⟩ := chunkTurn_call_counts turn
    dsimp only
    omega
  | case5 pos p req view q r k turn _ ih =>
    obtain ⟨-, rfl, rfl, -⟩ := chunkTurn_call_counts turn
    have : thrown.parser.received ≤ p.received + min p.remaining view.length + (view.drop (min p.remaining view.length)).length :=
      ih failed
    rw [List.length_drop] at this
    omega

theorem parseBody_received (parsed : parseBody cb p data req = .ok (n, p', req')) : p'.received ≤ p.received + n := by
  rcases parseBody_cases parsed with ⟨-, -, rfl, -⟩ | ⟨-, -, chunked⟩ | ⟨-, -, -, -, same⟩ | ⟨-, -, -, -, -, same⟩
  · exact Nat.le_add_right ..
  · exact parseChunked_received chunked
  · cases same
    exact Nat.le_add_right ..
  · cases same
    exact Nat.le_refl _

theorem parseBody_tooLarge {thrown : Thrown} (large : thrown.exc = tooLarge)
    (failed : parseBody cb p data req = .error thrown) : thrown.parser.received ≤ p.received + data.length := by
  unfold parseBody at failed
  split at failed
  next => cases failed
  next turn =>
    cases failed
    exact bodyTurn_fail_received turn
  next turn =>
    obtain ⟨-, rfl, -, rfl⟩ := bodyTurn_next turn
    exact parseChunked_tooLarge large failed
  next turn =>
    split at failed
    · cases failed
      exact bodyTurn_call_received turn
    · cases failed

theorem feedAll_tooLarge {thrown : Thrown} (large : thrown.exc = tooLarge) {pending : Bytes} {pieces : List Bytes}
    (failed : feedAll (readPiece cb) t pending pieces = .error thrown) :
    thrown.parser.received ≤ t.parser.received + (pending.length + pieces.flatten.length) := by
  induction pieces generalizing t pending with
  | nil => cases failed
  | cons piece pieces ih =>
    simp only [feedAll, feed] at failed
    cases read : parseBody cb t.parser (pending ++ piece) t.req with
    | error other =>
      rw [readPiece, read] at failed
      cases failed
      have := parseBody_tooLarge large read
      simp only [List.length_append, List.flatten_cons] at this ⊢
      omega
    | ok result =>
      obtain ⟨n, p, req⟩ := result
      rw [readPiece, read] at failed
      have later := ih failed
      have counted := parseBody_received read
      have bound := parseBody_bound read
      simp only [List.length_append, List.length_drop, List.flatten_cons] at later bound ⊢
      omega

-- A body of less than 2^64 bytes cannot wrap the counter.
theorem not_wraps_of_short {pieces : List Bytes} (short : t.parser.received + pieces.flatten.length < sizeMod) :
    ¬ Wraps m (readPieces cb t pieces) := by
  intro wraps
  cases failed : readPieces cb t pieces with
  | ok =>
    rw [failed] at wraps
    exact wraps
  | error thrown =>
    rw [failed] at wraps
    obtain ⟨large, above, within⟩ := wraps
    have bound := feedAll_tooLarge large failed
    rw [List.length_nil, Nat.zero_add] at bound
    rw [Nat.mod_eq_of_lt (bound.trans_lt short)] at within
    omega

end Short

section Exact

variable {cb : Callback} {p p' : Parser} {req req' : Request} {m : Nat}

theorem readPieces_follows (seen : Nat) (own : ∀ before piece, cb before piece ≠ some tooLarge) (positive : m ≠ 0)
    (size : m < sizeMod) (finished : finalizeHead p req = .ok (p', req')) (fresh : req.delivered = [])
    (pieces : List Bytes) :
    Follows m (·.1.req) (readPiecesSized cb (registered p' req' seen m) pieces)
      (readPieces cb (registered p' req' seen m) pieces) := by
  rcases registered_cases m seen finished fresh with
    ⟨-, counting, none, eq⟩ | ⟨-, -, owing, unread, -, running⟩ | ⟨-, -, done, -, -⟩
  · have limited : (registered p' req' seen m).Limited m := by
      rw [eq]
      exact ⟨counting.mode, rfl, counting.callback, counting.count, none.trans_le (Nat.zero_le m)⟩
    exact feedAll_follows own positive size limited [] pieces
  · rcases Nat.lt_or_ge m p.contentLength with exceeds | enough
    · cases pieces with
      | nil => exact .refl id
      | cons piece pieces =>
        have refused := readPieces_refused cb piece pieces owing unread running positive size exceeds
        have same : readPiecesSized cb (registered p' req' seen m) (piece :: pieces) =
            readPieces cb (registered p' req' seen m) (piece :: pieces) := by
          simp only [readPiecesSized, readPieces, feedAll, feed,
            readPieceSized_refused cb _ owing unread positive size exceeds,
            readPiece_refused cb _ owing unread running positive size exceeds]
        rw [same, refused]
        refine .refl fun wraps => ?_
        have above : m < (registered p' req' seen m).parser.received := wraps.2.1
        omega
    · rw [readPiecesSized, feedAllSized_length owing size enough]
      refine .refl fun wraps => ?_
      rcases owing.feedAll size (fun _ => enough) cb [] pieces with ⟨t, rest, read, -⟩ | ⟨thrown, read, ⟨before, piece, threw⟩, -⟩
      · rw [read] at wraps
        exact wraps
      · rw [read] at wraps
        refine own before piece (threw.trans ?_)
        rw [show thrown.exc = tooLarge from wraps.1]
  · have sized := feedAll_idle (fun data => readPieceSized_completed cb data done) [] pieces
    rw [readPiecesSized, sized, feedAll_completed cb done]
    exact .refl id

theorem wraps_take {t : Reception} {pieces : List Bytes} (k : Nat) (wraps : Wraps m (readPieces cb t (pieces.take k))) :
    Wraps m (readPieces cb t pieces) := by
  cases read : readPieces cb t (pieces.take k) with
  | ok result =>
    rw [read] at wraps
    cases wraps
  | error thrown =>
    have whole := feedAll_error_append read (pieces.drop k)
    rw [List.take_append_drop] at whole
    rw [readPieces, whole]
    exact read ▸ wraps

/--
A reading of a body never hands the callback more than the limit `m`, and it is refused for its size exactly when it is larger,
as long as no piece takes `m_received` to a number that wraps to one within the limit.
-/
theorem body_limit_exact (seen : Nat) (own : ∀ before piece, cb before piece ≠ some tooLarge) (positive : 1 ≤ m)
    (size : m < sizeMod) (finished : finalizeHead p req = .ok (p', req')) (fresh : req.delivered = [])
    (pieces : List Bytes) :
    (handed (·.1.req) (readPiecesSized cb (registered p' req' seen m) pieces) ≤ m ∧
      (¬ p.chunked →
        (m < p.contentLength → pieces ≠ [] →
          ∃ thrown, readPiecesSized cb (registered p' req' seen m) pieces = .error thrown ∧
            thrown.exc = tooLarge ∧ thrown.req.delivered = []) ∧
        (p.contentLength ≤ m → ¬ Rejected (readPiecesSized cb (registered p' req' seen m) pieces))) ∧
      (p.chunked →
        (Rejected (readPiecesSized cb (registered p' req' seen m) pieces) ↔
          m < handed (·.1.req) (readPieces cb (registered p' req' seen 0) pieces))) ∧
      ∀ k t rest, readPiecesSized cb (registered p' req' seen m) (pieces.take k) = .ok (t, rest) →
        t.parser.received ≤ m ∧ sizeSub m t.parser.received = m - t.parser.received) ↔
    ¬ Wraps m (readPieces cb (registered p' req' seen m) pieces) := by
  have follows := readPieces_follows seen own (by omega : m ≠ 0) size finished fresh
  have exact := limit_exact seen own positive size finished fresh pieces
  constructor
  · rintro ⟨most, -⟩ wraps
    obtain ⟨-, calm⟩ | ⟨-, above⟩ := follows pieces
    · exact calm wraps
    · omega
  · intro calm
    have same (k : Nat) := ((follows (pieces.take k)).resolve_right fun wrapped => calm (wraps_take k wrapped.1)).1
    have all := ((follows pieces).resolve_right fun wrapped => calm wrapped.1).1
    obtain ⟨most, plain, chunked, received⟩ := exact
    refine ⟨(handed_congr all).trans_le most, fun length => ⟨fun exceeds filled => ?_, fun enough rejected => ?_⟩,
      fun coded => (rejected_congr all).trans (chunked coded), fun k t rest read => ?_⟩
    · obtain ⟨thrown, threw, exc, untouched⟩ := (plain length).1 exceeds filled
      obtain ⟨other, sized, same, req⟩ := error_of_congr all threw
      exact ⟨other, sized, same.trans exc, by rw [req, untouched]⟩
    · exact (plain length).2 enough ((rejected_congr all).mp rejected)
    · exact received k t rest (ok_of_congr (same k) read)

def quietly : Callback := fun _ _ => none

theorem body_limit_exact_second_piece :
    ¬ Wraps 3 (readPieces quietly (registered { chunked := true, body := .chunked } { state := .headersCompleted } 40 3)
      [bytes "5\r\nab", bytes "cde\r\n"]) ∧
    handed (·.1.req) (readPiecesSized quietly
      (registered { chunked := true, body := .chunked } { state := .headersCompleted } 40 3)
      [bytes "5\r\nab", bytes "cde\r\n"]) ≤ 3 ∧
    Rejected (readPiecesSized quietly
      (registered { chunked := true, body := .chunked } { state := .headersCompleted } 40 3)
      [bytes "5\r\nab", bytes "cde\r\n"]) := by
  have finished : finalizeHead { chunked := true } {} =
      .ok ({ chunked := true, body := .chunked }, { state := .headersCompleted }) := rfl
  have quiet (before : List Bytes) (piece : Bytes) : quietly before piece ≠ some tooLarge := by
    simp [quietly]
  have calm : ¬ Wraps 3 (readPieces quietly (registered { chunked := true, body := .chunked } { state := .headersCompleted } 40 3)
      [bytes "5\r\nab", bytes "cde\r\n"]) := not_wraps_of_short (by decide)
  have limit := (body_limit_exact (m := 3) 40 quiet (by decide) (by decide) finished rfl
    [bytes "5\r\nab", bytes "cde\r\n"]).mpr calm
  exact ⟨calm, limit.1, (limit.2.2.1 rfl).mpr (by decide +kernel)⟩

-- a chunk of 2^64 - 2 bytes, and one of two bytes behind it
def longBody (data : Bytes) : List Bytes := [bytes "fffffffffffffffe\r\n", data, bytes "\r\n2\r\nab"]

def longStart : Reception := registered { chunked := true, body := .chunked } { state := .headersCompleted } 40 (2 ^ 64 - 2)

theorem readPiece_whole {data : Bytes} (mode : p.body = .chunked) (chunk : p.chunk = .data) (remaining : p.remaining = data.length)
    (filled : data ≠ []) (running : req.state ≠ .completed) (callback : req.callback)
    (room : p.received + data.length ≤ req.maxBodySize) :
    readPiece quietly ⟨p, req⟩ data = .ok (data.length,
      ⟨{ p with remaining := 0, received := p.received + data.length, chunk := .dataEnd },
        Request.receive { req with state := .processingBody } data⟩) := by
  have called : chunkTurn p { req with state := .processingBody } data =
      .call { p with received := p.received + data.length } { req with state := .processingBody } data.length := by
    have most : min p.remaining data.length = data.length := by rw [remaining, Nat.min_self]
    rw [chunkTurn_data filled chunk, most]
    exact deliver_call.mpr ⟨rfl, rfl, rfl, callback, fun _ => room⟩
  have landed : chunkDelivered { p with received := p.received + data.length } data.length =
      { p with remaining := 0, received := p.received + data.length, chunk := .dataEnd } := by
    simp [chunkDelivered, remaining]
  rw [readPiece_chunked quietly data mode running, parseChunked_quiet 0 called rfl, List.take_length, List.drop_length, landed,
    parseChunked_ret quietly _ (by rw [chunkTurn, if_pos rfl])]
  simp [Except.map]

theorem readPiece_two (mode : p.body = .chunked) (chunk : p.chunk = .dataEnd) (running : req.state ≠ .completed)
    (positive : req.maxBodySize ≠ 0) (above : req.maxBodySize < p.received + 2) :
    readPiece quietly ⟨p, req⟩ (bytes "\r\n2\r\nab") = .error ⟨tooLarge,
      { p with remaining := 2, received := p.received + 2, chunk := .data }, { req with state := .processingBody }⟩ := by
  have ended : chunkTurn p { req with state := .processingBody } (bytes "\r\n2\r\nab") =
      .next { p with chunk := .size } { req with state := .processingBody } 2 := by
    rw [chunkTurn, chunk]
    rfl
  have sized : chunkTurn { p with chunk := .size } { req with state := .processingBody } (bytes "2\r\nab") =
      .next { p with remaining := 2, chunk := .data } { req with state := .processingBody } 3 := rfl
  have refused : chunkTurn { p with remaining := 2, chunk := .data } { req with state := .processingBody } (bytes "ab") =
      .fail tooLarge { p with remaining := 2, received := p.received + 2, chunk := .data }
        { req with state := .processingBody } := by
    rw [chunkTurn_data (by decide) rfl]
    exact if_pos ⟨positive, above⟩
  rw [readPiece_chunked quietly _ mode running, parseChunked_next quietly 0 ended]
  change Except.map _ (parseChunked quietly _ _ _ (bytes "2\r\nab")) = _
  rw [parseChunked_next quietly _ sized]
  change Except.map _ (parseChunked quietly _ _ _ (bytes "ab")) = _
  rw [parseChunked_fail quietly _ refused]
  rfl

theorem longBody_wraps {data : Bytes} (length : data.length = 2 ^ 64 - 2) :
    Wraps (2 ^ 64 - 2) (readPieces quietly longStart (longBody data)) := by
  let p : Parser := { longStart.parser with remaining := 2 ^ 64 - 2, chunk := .data }
  let req : Request := { longStart.req with state := .processingBody }
  have filled : data ≠ [] := by
    rintro rfl
    cases length
  have first : readPiece quietly longStart (bytes "fffffffffffffffe\r\n") = .ok (18, ⟨p, req⟩) := by
    have sized : chunkTurn longStart.parser req (bytes "fffffffffffffffe\r\n") = .next p req 18 := by decide +kernel
    have idle : chunkTurn p req [] = .ret p req 0 := by decide +kernel
    rw [readPiece_chunked quietly _ rfl (by decide), parseChunked_next quietly 0 sized]
    exact congrArg _ (parseChunked_ret quietly _ idle)
  have second : readPiece quietly ⟨p, req⟩ data = .ok (data.length,
      ⟨{ p with remaining := 0, received := p.received + data.length, chunk := .dataEnd }, req.receive data⟩) :=
    readPiece_whole rfl rfl length.symm filled (by decide) rfl (by rw [length]; decide)
  have above : 2 ^ 64 - 2 < 0 + data.length + 2 := by omega
  have wrapped : (0 + data.length + 2) % 2 ^ 64 ≤ 2 ^ 64 - 2 := by omega
  let q : Parser := { p with remaining := 0, received := p.received + data.length, chunk := .dataEnd }
  have third : readPiece quietly ⟨q, req.receive data⟩ (bytes "\r\n2\r\nab") = .error ⟨tooLarge,
      { q with remaining := 2, received := q.received + 2, chunk := .data },
      { req.receive data with state := .processingBody }⟩ :=
    readPiece_two rfl rfl (show req.state ≠ .completed by decide) (show req.maxBodySize ≠ 0 by decide) above
  rw [readPieces, longBody, feedAll_whole first, feedAll_whole second, feedAll_fails third]
  exact ⟨rfl, above, wrapped⟩

/-- Two bytes above a limit of `2 ^ 64 - 2`, the default, the counter of the chunk data is zero and the callback gets them. -/
theorem wrapped_counter_exceeds_limit :
    ∃ data : Bytes, data.length = 2 ^ 64 - 2 ∧
      2 ^ 64 - 2 < handed (·.1.req) (readPiecesSized quietly
        (registered { chunked := true, body := .chunked } { state := .headersCompleted } 40 (2 ^ 64 - 2)) (longBody data)) := by
  have finished : finalizeHead { chunked := true } {} =
      .ok ({ chunked := true, body := .chunked }, { state := .headersCompleted }) := rfl
  have quiet (before : List Bytes) (piece : Bytes) : quietly before piece ≠ some tooLarge := by
    simp [quietly]
  refine ⟨List.replicate (2 ^ 64 - 2) 97, List.length_replicate, ?_⟩
  have wraps := longBody_wraps (List.length_replicate : (List.replicate (2 ^ 64 - 2) (97 : UInt8)).length = 2 ^ 64 - 2)
  generalize List.replicate (2 ^ 64 - 2) (97 : UInt8) = data at *
  have positive : 2 ^ 64 - 2 ≠ 0 := by decide
  rcases readPieces_follows 40 quiet positive (by decide) finished rfl (longBody data) with ⟨-, calm⟩ | ⟨-, above⟩
  · exact absurd wraps calm
  · exact above

end Exact

end Dracon
