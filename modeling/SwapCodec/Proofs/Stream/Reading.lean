import SwapCodec.Proofs.Stream

/-!
# Reading in any order

An operation on a reader asks what is left, looks at bytes, takes bytes or closes the reader
(`Reader.Call`). Operations may follow one another in any order, whether or not they fail
(`Reader.run`).

A read gives what the peek of its size gives, and takes that much if it succeeds
(`Reader.Call.perform_of_isRead`). What a peek gives stands in front of the unread bytes
(`Reader.Call.data_isPrefix`). So one operation takes a part from the front of the unread bytes
(`Reader.Call.taken_append_rest`), and by induction the parts that a run has taken and what is left
make up the whole (`Reader.received_append_rest`).

A reader can only be closed where nothing is left (`Reader.Call.perform_close_eq_ok_iff`). Once
closed it refuses every operation on its bytes (`Reader.Call.perform_of_closed`), and since an
operation that fails changes nothing, it stays as it is (`Reader.run_of_closed`).
-/

set_option autoImplicit false

namespace SwapCodec

namespace Reader

/-! ## Operations -/

/-- An operation on a reader. -/
inductive Call where
  /-- Asking whether nothing is left. -/
  | isEmpty
  /-- Asking how many bytes are left. -/
  | remaining
  /-- Looking at the next byte. -/
  | peekByte
  /-- Looking at some bytes, or at fewer at the end unless the count is exact. -/
  | peekBytes (n : Int) (exact : Bool)
  /-- Taking the next byte. -/
  | readByte
  /-- Taking some bytes, or fewer at the end unless the count is exact. -/
  | readBytes (n : Int) (exact : Bool)
  /-- Taking all bytes that are left. -/
  | readAll
  /-- Closing the reader. -/
  | close
  deriving DecidableEq

/-- What an operation on a reader gives. -/
inductive Answer where
  | truth (b : Bool)
  | count (n : Nat)
  | byte (b : UInt8)
  | bytes (data : List UInt8)
  | done
  deriving DecidableEq

/-- The bytes of an answer. -/
def Answer.data : Answer → List UInt8
  | .byte b => [b]
  | .bytes data => data
  | _ => []

namespace Call

/-- The operation looks at bytes. -/
def isPeek : Call → Bool
  | peekByte | peekBytes _ _ => true
  | _ => false

/-- The operation takes bytes. -/
def isRead : Call → Bool
  | readByte | readBytes _ _ | readAll => true
  | _ => false

/-- The operation itself, or the one that looks at the bytes that it takes. -/
def peeked (r : Reader) : Call → Call
  | readByte => .peekByte
  | readBytes n exact => .peekBytes n exact
  | readAll => .peekBytes r.remaining true
  | c => c

/-- Does an operation. -/
def perform : Call → Decoder Answer
  | isEmpty => fun r => (.ok (.truth r.isEmpty), r)
  | remaining => fun r => (.ok (.count r.remaining), r)
  | peekByte => fun r => (r.peekByte.map .byte, r)
  | peekBytes n exact => fun r => ((r.peekBytes n exact).map .bytes, r)
  | readByte => return .byte (← Decoder.byte)
  | readBytes n exact => return .bytes (← Decoder.bytes n exact)
  | readAll => return .bytes (← Decoder.all)
  | close => do
    Decoder.close
    return .done

/-- The bytes that an operation takes. -/
def taken (r : Reader) (c : Call) : List UInt8 :=
  match c.isRead, (c.perform r).1 with
  | true, .ok a => a.data
  | _, _ => []

end Call

/-- The reader after a sequence of operations, whether or not they failed. -/
def run (r : Reader) (calls : List Call) : Reader :=
  calls.foldl (fun r c => (c.perform r).2) r

/-- The bytes that a sequence of operations takes, one part behind the other. -/
def received (r : Reader) : List Call → List UInt8
  | [] => []
  | c :: calls => c.taken r ++ received (c.perform r).2 calls

variable {r : Reader} {c : Call} {a : Answer} {e : Error}

namespace Call

/-! ## Looking and taking -/

theorem perform_of_isRead (read : c.isRead = true) :
    c.perform r = match ((c.peeked r).perform r).1 with
      | .ok a => (.ok a, r.skip a.data.length)
      | .error e => (.error e, r) := by
  cases c with
  | readByte =>
      rw [perform, bind_apply, Decoder.byte]
      cases found : r.peekByte <;> simp only [peeked, perform, found] <;> rfl
  | readBytes n exact =>
      rw [perform, bind_apply, Decoder.bytes]
      cases found : r.peekBytes n exact <;> simp only [peeked, perform, found] <;> rfl
  | readAll =>
      rw [perform, bind_apply, Decoder.all, Decoder.bytes]
      cases found : r.peekBytes r.remaining true <;> simp only [peeked, perform, found] <;> rfl
  | _ => cases read

/-- A read gives what the peek of its size gives. -/
theorem fst_perform_of_isRead (read : c.isRead = true) :
    (c.perform r).1 = ((c.peeked r).perform r).1 := by
  rw [perform_of_isRead read]
  cases ((c.peeked r).perform r).1 <;> rfl

theorem perform_of_not_isRead (other : c.isRead = false) (still : c ≠ .close) :
    (c.perform r).2 = r := by
  cases c with
  | readByte | readBytes | readAll => cases other
  | close => exact absurd rfl still
  | _ => rfl

theorem isPeek_peeked (read : c.isRead = true) : (c.peeked r).isPeek = true := by
  cases c with
  | readByte | readBytes | readAll => rfl
  | _ => cases read

theorem eq_take_of_peekBytes {n : Int} {exact : Bool} {chunk : List UInt8}
    (found : r.peekBytes n exact = .ok chunk) : chunk = r.rest.take n.toNat := by
  simp only [Reader.peekBytes] at found
  split at found
  · exact absurd found fail_ne_ok
  · split at found
    · exact absurd found fail_ne_ok
    · split at found
      · exact absurd found fail_ne_ok
      · exact (Except.ok.inj found).symm

/-- What a peek gives stands in front of the unread bytes. -/
theorem data_isPrefix (peek : c.isPeek = true) (given : (c.perform r).1 = .ok a) :
    a.data <+: r.rest := by
  cases c with
  | peekByte =>
      obtain ⟨b, found, rfl⟩ := Except.map_eq_ok_iff.mp given
      obtain ⟨rest, whole⟩ := peekByte_eq_ok found
      exact ⟨rest, whole.symm⟩
  | peekBytes n exact =>
      obtain ⟨chunk, found, rfl⟩ := Except.map_eq_ok_iff.mp given
      exact eq_take_of_peekBytes found ▸ List.take_prefix _ _
  | _ => cases peek

/-! ## Closing -/

theorem perform_close :
    close.perform r =
      if r.closed then (.error .readerClosed, r)
      else if r.isEmpty then (.ok .done, { r with closed := true })
      else (.error (.trailingData r.remaining), r) := by
  rw [perform, bind_apply, Decoder.close]
  cases closed : r.closed with
  | true => rfl
  | false => cases empty : r.isEmpty <;> rfl

theorem perform_close_eq_ok_iff :
    (close.perform r).1 = .ok .done ↔ r.closed = false ∧ r.rest = [] := by
  rw [perform_close]
  cases closed : r.closed with
  | true => simp
  | false =>
      cases empty : r.isEmpty with
      | true => simp [List.isEmpty_iff.mp empty]
      | false => simp [List.isEmpty_eq_false_iff.mp empty]

theorem snd_perform_close (closing : (close.perform r).1 = .ok .done) :
    (close.perform r).2 = { rest := [], closed := true } := by
  obtain ⟨opened, nothing⟩ := perform_close_eq_ok_iff.mp closing
  rw [perform_close, opened, Reader.isEmpty, nothing]
  rfl

theorem rest_perform_close : (close.perform r).2.rest = r.rest := by
  rw [perform_close]
  split
  · rfl
  · split <;> rfl

/-! ## One operation -/

/-- An operation that fails leaves the reader as it is. -/
theorem perform_of_error (failed : (c.perform r).1 = .error e) : (c.perform r).2 = r := by
  by_cases read : c.isRead = true
  · rw [perform_of_isRead read] at failed ⊢
    split at failed
    · cases failed
    · rfl
  · by_cases last : c = .close
    · subst last
      rw [perform_close] at failed ⊢
      by_cases closed : r.closed = true
      · rw [if_pos closed]
      · by_cases empty : r.isEmpty = true
        · rw [if_neg closed, if_pos empty] at failed
          cases failed
        · rw [if_neg closed, if_neg empty]
    · exact perform_of_not_isRead (Bool.eq_false_iff.mpr read) last

/-- **One operation** takes a part from the front of the unread bytes. -/
theorem taken_append_rest (r : Reader) (c : Call) : c.taken r ++ (c.perform r).2.rest = r.rest := by
  by_cases read : c.isRead = true
  · rw [taken, read, perform_of_isRead read]
    cases given : ((c.peeked r).perform r).1 with
    | error e => rfl
    | ok a => exact List.prefix_iff_eq_append.mp (data_isPrefix (isPeek_peeked read) given)
  · have none : c.taken r = [] := by rw [taken, Bool.eq_false_iff.mpr read]
    rw [none, List.nil_append]
    by_cases last : c = .close
    · subst last
      exact rest_perform_close
    · rw [perform_of_not_isRead (Bool.eq_false_iff.mpr read) last]

/-! ## Readers that have been closed -/

theorem peekByte_of_closed (closed : r.closed = true) : r.peekByte = .error .readerClosed := by
  rw [Reader.peekByte, if_pos closed]
  exact fail_eq_error rfl

theorem peekBytes_of_closed (closed : r.closed = true) (n : Int) (exact : Bool) :
    r.peekBytes n exact = .error .readerClosed := by
  rw [Reader.peekBytes, if_pos closed]
  exact fail_eq_error rfl

theorem perform_of_isPeek_of_closed (closed : r.closed = true) (peek : c.isPeek = true) :
    (c.perform r).1 = .error .readerClosed := by
  cases c with
  | peekByte => exact congrArg (Except.map Answer.byte) (peekByte_of_closed closed)
  | peekBytes n exact =>
      exact congrArg (Except.map Answer.bytes) (peekBytes_of_closed closed n exact)
  | _ => cases peek

/-- A closed reader refuses every operation on its bytes. -/
theorem perform_of_closed (closed : r.closed = true)
    (working : c.isPeek = true ∨ c.isRead = true ∨ c = .close) :
    (c.perform r).1 = .error .readerClosed := by
  rcases working with peek | read | rfl
  · exact perform_of_isPeek_of_closed closed peek
  · rw [perform_of_isRead read, perform_of_isPeek_of_closed closed (isPeek_peeked read)]
  · rw [perform_close, if_pos closed]

theorem snd_perform_of_closed (closed : r.closed = true) (c : Call) : (c.perform r).2 = r := by
  by_cases working : c.isRead = true ∨ c = .close
  · exact perform_of_error (perform_of_closed closed (.inr working))
  · obtain ⟨other, still⟩ := not_or.mp working
    exact perform_of_not_isRead (Bool.eq_false_iff.mpr other) still

end Call

/-! ## Sequences of operations -/

theorem run_append (r : Reader) (before after : List Call) :
    r.run (before ++ after) = (r.run before).run after := List.foldl_append

theorem run_of_closed (closed : r.closed = true) (calls : List Call) : r.run calls = r := by
  induction calls with
  | nil => rfl
  | cons c calls ih =>
      rw [run, List.foldl_cons, Call.snd_perform_of_closed closed]
      exact ih

theorem run_of_close (closing : (Call.close.perform r).1 = .ok .done) (after : List Call) :
    r.run (.close :: after) = { rest := [], closed := true } := by
  rw [run, List.foldl_cons, Call.snd_perform_close closing]
  exact run_of_closed rfl after

/-- **All operations.** What a run has taken and what is left make up the whole. -/
theorem received_append_rest (r : Reader) (calls : List Call) :
    r.received calls ++ (r.run calls).rest = r.rest := by
  induction calls generalizing r with
  | nil => rfl
  | cons c calls ih =>
      rw [received, List.append_assoc]
      exact (congrArg (c.taken r ++ ·) (ih (c.perform r).2)).trans (c.taken_append_rest r)

/-- **Reading in any order.** What a run of operations has taken is the front of the byte string,
and the rest of it is left. An operation that fails takes nothing and neither does one that takes
no bytes; a read gives what the peek of its size gives. A reader is closed only where nothing is
left, and from then on it refuses every operation on its bytes and has nothing left. -/
theorem reads_partition (data : List UInt8) (calls : List Call) :
    let start : Reader := { rest := data }
    let r := start.run calls
    start.received calls ++ r.rest = data ∧
      (Call.remaining.perform r).1 = .ok (.count (data.length - (start.received calls).length)) ∧
      (∀ (c : Call) (e : Error), (c.perform r).1 = .error e → (c.perform r).2 = r) ∧
      (∀ c : Call, c.isRead = false → c ≠ .close → (c.perform r).2 = r) ∧
      (∀ c : Call, c.isRead = true → (c.perform r).1 = ((c.peeked r).perform r).1) ∧
      ∀ before after, calls = before ++ .close :: after →
        (Call.close.perform (start.run before)).1 = .ok .done →
          (start.run before).rest = [] ∧
            (Call.remaining.perform r).1 = .ok (.count 0) ∧
            ∀ c : Call, c.isPeek = true ∨ c.isRead = true ∨ c = .close →
              FailsWith (c.perform r).1 .serialization := by
  intro start r
  have whole : start.received calls ++ r.rest = data := received_append_rest start calls
  refine ⟨whole, ?_, fun c e => Call.perform_of_error, fun c => Call.perform_of_not_isRead,
    fun c => Call.fst_perform_of_isRead, ?_⟩
  · have counted := congrArg List.length whole
    rw [List.length_append] at counted
    show Except.ok (Answer.count r.rest.length) = _
    rw [← counted, Nat.add_sub_cancel_left]
  · intro before after parts closing
    have last : r = { rest := [], closed := true } := by
      rw [← run_of_close closing after, ← run_append, ← parts]
    refine ⟨(Call.perform_close_eq_ok_iff.mp closing).2, last ▸ rfl, fun c working => ?_⟩
    exact ⟨.readerClosed, Call.perform_of_closed (last ▸ rfl) working, rfl, rfl⟩

/-- A read that asks for too much takes nothing, and one that may take fewer takes what is left. -/
example :
    received { rest := [1, 2, 3] }
      [.readByte, .peekByte, .readBytes 5 true, .readBytes 5 false, .close, .readAll] =
        [1, 2, 3] := by decide

end Reader

end SwapCodec
