/-
The limit on request bodies (`RequestBodyLimitMiddleware` of `security.py`).
A body is received whole before the application is called, with a `receive`
that gives the messages again. `body_limit_exact` says what becomes of every
request, however its body is cut into messages and wherever its client leaves.
-/
import Mathlib.Algebra.GroupWithZero.Nat
import Plexio.Lib.Base64
import Plexio.Lib.Dict
import Plexio.Lib.JsonText
import Plexio.Runtime

namespace Plexio

open Py

/-! ## Messages -/

/-- What an ASGI server gives to `receive`. -/
structure Message where
  type : Str
  body : Option Bytes
  moreBody : Option Bool
  deriving DecidableEq

namespace Message

def isDisconnect (m : Message) : Bool := m.type == "http.disconnect".toList

/-- `len(message.get('body', b''))` -/
def size (m : Message) : Nat := (m.body.getD []).length

/-- `message.get('more_body', False)` -/
def hasMore (m : Message) : Bool := m.moreBody.getD false

/-- An empty final message. -/
def empty : Message where
  type := "http.request".toList
  body := some []
  moreBody := some false

end Message

/-- What is given to `send`. -/
inductive Sent
  | start (status : Nat) (headers : List (Bytes × Bytes))
  | body (bytes : Bytes)
  deriving DecidableEq

structure Scope where
  type : Str
  method : Str
  headers : List (Bytes × Bytes)

/-! ## The middleware -/

/-- `int(b)` of bytes; `none` is a `ValueError`. Beyond ASCII there are no
digits, and the four separators are no blanks. -/
def intOfBytes (b : Bytes) : Option Int :=
  if b.any fun c => 128 ≤ c || (28 ≤ c && c ≤ 31) then none
  else parseInt Unicode.ascii.decimal (b.map fun c => Char.ofNat c.toNat)

/-- `content_length`: a header that is absent or malformed declares nothing. -/
def contentLength (headers : List (Bytes × Bytes)) : Int :=
  (intOfBytes (((Dict.ofList headers).get? (encode "content-length".toList)).getD (encode "0".toList))).getD 0

/-- `_reject` -/
def reject : List Sent :=
  let body := encode (Json.print [' '] (.obj [("detail".toList, .str "Request body too large".toList)]))
  [.start 413 [(encode "content-type".toList, encode "application/json".toList),
    (encode "content-length".toList, encode (strInt body.length))], .body body]

/-- `replay`: what one call returns, and the messages that are left. -/
def replay : List Message → Message × List Message
  | message :: messages => (message, messages)
  | [] => (.empty, [])

/-- What becomes of a request. -/
inductive Handling
  /-- Passed on with its own `receive`. -/
  | passed
  | rejected
  /-- The client has gone. -/
  | dropped
  /-- More is to be received. -/
  | waiting
  /-- Passed on with `replay` over these messages. -/
  | replayed (messages : List Message)
  deriving DecidableEq

/-- The middleware's loop. -/
def receiveBody (maxBodySize : Int) (messages : List Message) (total : Nat) : List Message → Handling
  | [] => .waiting
  | message :: incoming =>
    if message.isDisconnect then .dropped
    else
      let total := total + message.size
      if (total : Int) > maxBodySize then .rejected
      else
        let messages := messages ++ [message]
        if message.hasMore then receiveBody maxBodySize messages total incoming else .replayed messages

def limitedMethods : List Str := ["POST".toList, "PUT".toList, "PATCH".toList]

/-- `__call__`, on what the client sends. -/
def requestBodyLimit (maxBodySize : Int) (scope : Scope) (incoming : List Message) : Handling :=
  if scope.type ≠ "http".toList ∨ scope.method ∉ limitedMethods then .passed
  else if contentLength scope.headers > maxBodySize then .rejected
  else receiveBody maxBodySize [] 0 incoming

namespace Handling

/-- What the middleware itself sends. -/
def sent : Handling → List Sent
  | rejected => reject
  | passed | dropped | waiting | replayed _ => []

/-- The application is called. -/
def Called : Handling → Prop
  | passed | replayed _ => True
  | rejected | dropped | waiting => False

/-- What the application's calls of `receive` return. -/
def receives : Nat → List Message → List Message
  | 0, _ => []
  | n + 1, messages => (replay messages).1 :: receives n (replay messages).2

end Handling

/-! ## Requests -/

/-- What a client sends until its body ends or it leaves. -/
structure RequestBody where
  chunks : List Message
  more : ∀ m ∈ chunks, m.isDisconnect = false ∧ m.hasMore = true
  last : Message
  ends : last.isDisconnect = true ∨ last.hasMore = false

namespace RequestBody
variable (body : RequestBody)

/-- The final body message arrives. -/
def Complete : Prop := body.last.isDisconnect = false

instance : Decidable body.Complete := inferInstanceAs (Decidable (_ = _))

/-- The messages of the body. -/
def messages : List Message := if body.Complete then body.chunks ++ [body.last] else body.chunks

/-- The bytes of the body. -/
def size : Nat := (body.messages.map Message.size).sum

end RequestBody

/-- The last header of a name is the one that counts. -/
def declaredLength (headers : List (Bytes × Bytes)) : Int :=
  match headers.reverse.lookup (encode "content-length".toList) with
  | none => 0
  | some value => (intOfBytes value).getD 0

theorem contentLength_eq (headers : List (Bytes × Bytes)) : contentLength headers = declaredLength headers := by
  have hzero : (intOfBytes (encode "0".toList)).getD 0 = 0 := by decide
  rw [contentLength, declaredLength, Dict.get?_ofList]
  cases headers.reverse.lookup (encode "content-length".toList) with
  | none => exact hzero
  | some value => rfl

/-! ## What becomes of a request -/

section Loop
variable {limit : Int}

/-- The messages the loop keeps of these, the last of which ends it. -/
def kept (chunks : List Message) (last : Message) : List Message :=
  if last.isDisconnect = false then chunks ++ [last] else chunks

/-- The end of a loop that has `total` bytes of the `messages` so far. -/
def verdict (limit : Int) (messages : List Message) (total : Nat) (last : Message) (more : List Message) : Handling :=
  if more ≠ [] ∧ limit < (total + (more.map Message.size).sum : Nat) then .rejected
  else if last.isDisconnect = false then .replayed (messages ++ more) else .dropped

/-- **The loop**: each turn leaves the same question for the rest. -/
theorem receiveBody_eq {last : Message} (hends : last.isDisconnect = true ∨ last.hasMore = false) (later : List Message) :
    ∀ {chunks : List Message}, (∀ m ∈ chunks, m.isDisconnect = false ∧ m.hasMore = true) → ∀ messages total,
      receiveBody limit messages total (chunks ++ last :: later) = verdict limit messages total last (kept chunks last)
  | [], _, messages, total => by
    rw [List.nil_append, receiveBody, verdict, kept]
    cases hlast : last.isDisconnect with
    | true => simp
    | false =>
      have hmore : last.hasMore = false := hends.resolve_left (by simp [hlast])
      simp [hmore]
  | c :: chunks, h, messages, total => by
    obtain ⟨⟨hdisconnect, hmore⟩, hchunks⟩ := List.forall_mem_cons.mp h
    have hkept : kept (c :: chunks) last = c :: kept chunks last := by
      unfold kept
      split <;> rfl
    rw [List.cons_append, receiveBody, hdisconnect, hmore, hkept]
    simp only [Bool.false_eq_true, if_false, if_true]
    rw [receiveBody_eq hends later hchunks, verdict, verdict, List.map_cons, List.sum_cons, List.append_assoc,
      List.singleton_append]
    generalize hrest : kept chunks last = rest
    by_cases hfirst : limit < (total + c.size : Nat)
    · rw [if_pos hfirst, if_pos ⟨List.cons_ne_nil _ _, by omega⟩]
    · rw [if_neg hfirst]
      have hiff : (rest ≠ [] ∧ limit < (total + c.size + (rest.map Message.size).sum : Nat)) ↔
          c :: rest ≠ [] ∧ limit < (total + (c.size + (rest.map Message.size).sum) : Nat) := by
        rw [← Nat.add_assoc]
        refine ⟨fun h => ⟨List.cons_ne_nil _ _, h.2⟩, fun h => ⟨?_, h.2⟩⟩
        -- Without more messages the first would have been too large.
        rintro rfl
        exact hfirst (by simpa using h.2)
      simp only [hiff]

end Loop

theorem receives_eq : ∀ (n : Nat) (messages : List Message),
    Handling.receives n messages = (messages ++ List.replicate n Message.empty).take n
  | 0, _ => by simp [Handling.receives]
  | n + 1, [] => by
    rw [Handling.receives, replay, receives_eq n]
    simp [List.replicate_succ]
  | n + 1, m :: messages => by
    have hlength : n ≤ (messages ++ List.replicate n Message.empty).length := by simp
    rw [Handling.receives, replay, receives_eq n, List.cons_append, List.take_succ_cons, List.replicate_succ',
      ← List.append_assoc, List.take_append_of_le_length hlength]

/-! ## The limit -/

/-- A method whose requests have their bodies limited. -/
abbrev LimitedMethod := { method : Str // method ∈ limitedMethods }

/-- What is asked of the middleware. A limit below 0 is exceeded by the first message. -/
structure LimitOk (limit : Int) (headers : List (Bytes × Bytes)) (body : RequestBody) (handling : Handling) : Prop where
  called : handling.Called ↔ declaredLength headers ≤ limit ∧ body.Complete ∧ body.size ≤ limit
  replays : handling.Called → handling.sent = [] ∧ ∃ messages, handling = .replayed messages ∧
    ∀ n, Handling.receives n messages = (body.chunks ++ body.last :: List.replicate n Message.empty).take n
  rejected : limit < declaredLength headers ∨ (body.messages ≠ [] ∧ limit < body.size) →
    ¬ handling.Called ∧ handling.sent = reject
  dropped : declaredLength headers ≤ limit → ¬ body.Complete → (body.messages ≠ [] → body.size ≤ limit) →
    ¬ handling.Called ∧ handling.sent = []

/-- A request whose body is received, by what its messages come to. -/
theorem limitOk_verdict {limit : Int} {headers : List (Bytes × Bytes)} (hdeclared : declaredLength headers ≤ limit)
    (body : RequestBody) : LimitOk limit headers body (verdict limit [] 0 body.last body.messages) := by
  have hnot : ¬ limit < declaredLength headers := by omega
  unfold verdict
  split
  · next hlarge =>
    rw [Nat.zero_add] at hlarge
    have hsize : ¬ body.size ≤ limit := by
      rw [RequestBody.size]
      omega
    refine ⟨⟨False.elim, fun h => hsize h.2.2⟩, False.elim, fun _ => ⟨id, rfl⟩, fun _ _ h => absurd (h hlarge.1) hsize⟩
  · next hsmall =>
    rw [Nat.zero_add] at hsmall
    have hfits : body.messages ≠ [] → body.size ≤ limit := fun h => Int.not_lt.mp fun hlt => hsmall ⟨h, hlt⟩
    have hnone : ¬ (limit < declaredLength headers ∨ (body.messages ≠ [] ∧ limit < body.size)) := by
      intro hlarge
      rcases hlarge with hdeclared | hbody
      · exact hnot hdeclared
      · exact absurd (hfits hbody.1) (by omega)
    split
    · next hcomplete =>
      have hmessages : body.messages = body.chunks ++ [body.last] := if_pos hcomplete
      have hne : body.messages ≠ [] := by
        rw [hmessages]
        simp
      refine ⟨iff_of_true trivial ⟨hdeclared, hcomplete, hfits hne⟩, fun _ => ⟨rfl, _, rfl, fun n => ?_⟩,
        fun h => absurd h hnone, fun _ h => absurd hcomplete h⟩
      rw [receives_eq, List.nil_append, hmessages, List.append_assoc, List.singleton_append]
    · next hcomplete =>
      exact ⟨iff_of_false id fun h => hcomplete h.2.1, False.elim, fun h => absurd h hnone, fun _ _ _ => ⟨id, rfl⟩⟩

/-- **The limit is exact**, and the application that is called sees the
request as it came. -/
theorem body_limit_exact (limit : Int) (method : LimitedMethod) (headers : List (Bytes × Bytes)) (body : RequestBody)
    (later : List Message) :
    LimitOk limit headers body
      (requestBodyLimit limit ⟨"http".toList, method.1, headers⟩ (body.chunks ++ body.last :: later)) := by
  have hlimited : ¬ ("http".toList ≠ "http".toList ∨ method.1 ∉ limitedMethods) := by
    simpa using method.2
  rw [requestBodyLimit, if_neg hlimited, contentLength_eq]
  dsimp only
  split
  · next hlarge =>
    have hnot : ¬ declaredLength headers ≤ limit := by omega
    exact ⟨iff_of_false id fun h => hnot h.1, False.elim, fun _ => ⟨id, rfl⟩, fun h => absurd h hnot⟩
  · next hsmall =>
    rw [receiveBody_eq body.ends later body.more]
    exact limitOk_verdict (by omega) body

/-- Two messages of three bytes; the limit is on them together. -/
example : ([5, 6] : List Int).map (fun limit => requestBodyLimit limit ⟨"http".toList, "POST".toList, []⟩
    [⟨"http.request".toList, some [1, 2, 3], some true⟩, ⟨"http.request".toList, some [4, 5, 6], none⟩]) =
    [.rejected, .replayed [⟨"http.request".toList, some [1, 2, 3], some true⟩,
      ⟨"http.request".toList, some [4, 5, 6], none⟩]] := by decide +kernel

end Plexio
