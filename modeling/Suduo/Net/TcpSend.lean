/-
# The three `send`s

`TcpConnection.h` declares `send(const void*, int)`, `send(const std::string&)` and `send(Buffer*)`,
and `send_in_loop` twice.  Which of them a call in their bodies goes to is settled by overload
resolution, so that is part of the model: a call names the function and the types of its arguments,
and the candidates are those that take as many, each convertible.

Two of the `send`s agree (`string_buffer_agree`), and do what a call of `send` does in the model of
the connection.  The third hands its `const char*` and its length to the only `send` with two
parameters, which is itself; it was written for a `send(const char*, ...)` that is not declared.  It
never returns, whatever the state of the connection (`send_overloads`).
-/
import Suduo.Net.TcpConnection

namespace Suduo.TcpConnection

open Lib

/-! ## 1. Overload resolution -/

/-- The types of the arguments in the calls of `TcpConnection.cpp`. -/
inductive ArgType
  | constVoidPtr
  | constCharPtr
  | string
  | bufferPtr
  | int
  | sizeT
  deriving DecidableEq, Repr

/-- The types of the parameters. -/
inductive Param
  | constVoidPtr
  | constStringRef
  | bufferPtr
  | int
  | sizeT
  deriving DecidableEq, Repr

/-- The implicit conversions: any pointer to `const void*`, a `const char*` to a `std::string`, and
between the integer types. -/
def ArgType.convertible : ArgType → Param → Bool
  | .constVoidPtr, .constVoidPtr => true
  | .constCharPtr, .constVoidPtr | .constCharPtr, .constStringRef => true
  | .string, .constStringRef => true
  | .bufferPtr, .bufferPtr | .bufferPtr, .constVoidPtr => true
  | .int, .int | .int, .sizeT | .sizeT, .int | .sizeT, .sizeT => true
  | _, _ => false

inductive FunctionName
  | send
  | sendInLoop
  deriving DecidableEq, Repr

/-- The functions behind the names. -/
inductive Function
  | sendBytes
  | sendString
  | sendBuffer
  | sendInLoopString
  | sendInLoopBytes
  deriving DecidableEq, Repr

/-- The declarations in `TcpConnection.h`. -/
def declarations : List (FunctionName × List Param × Function) :=
  [(.send, [.constVoidPtr, .int], .sendBytes),
    (.send, [.constStringRef], .sendString),
    (.send, [.bufferPtr], .sendBuffer),
    (.sendInLoop, [.constStringRef], .sendInLoopString),
    (.sendInLoop, [.constVoidPtr, .sizeT], .sendInLoopBytes)]

/-- As many arguments as parameters, each convertible. -/
def viable : List ArgType → List Param → Bool
  | [], [] => true
  | a :: as, p :: ps => a.convertible p && viable as ps
  | _, _ => false

/-- The function a call goes to, when there is just one for it; no call here has a choice.  The
declarations are those of the header, in its order. -/
def resolve (name : FunctionName) (args : List ArgType) : Option Function :=
  match declarations.filter fun d => d.1 = name && viable args d.2.1 with
  | [d] => some d.2.2
  | _ => none

/-! ## 2. The bodies -/

/-- What a call of `send` comes to. -/
inductive Effect
  | nothing
  /-- `send_in_loop(message)` is run. -/
  | sendInLoop (message : List Byte)
  /-- `send_in_loop` is queued with a copy of the message. -/
  | queueSendInLoop (message : List Byte)
  deriving DecidableEq, Repr

namespace State

/-- The bodies with a message's bytes as argument, to a depth of `fuel` calls.  `send(Buffer*)` has
a `Buffer` for its argument, and is below. -/
def run (c : State) (t : Tid) : Nat → Function → List Byte → Option Effect
  | 0, _, _ => none
  | fuel + 1, .sendBytes, message => do
    -- `send(static_cast<const char*>(date), len)`
    let f ← resolve .send [.constCharPtr, .int]
    c.run t fuel f message
  | fuel + 1, .sendString, message =>
    if c.state = .connected then
      if t = c.loopThread then do
        let f ← resolve .sendInLoop [.string]
        c.run t fuel f message
      else some (.queueSendInLoop message)
    else some .nothing
  | fuel + 1, .sendInLoopString, message => do
    -- `send_in_loop(message.data(), message.size())`
    let f ← resolve .sendInLoop [.constCharPtr, .sizeT]
    c.run t fuel f message
  | _ + 1, .sendInLoopBytes, message => some (.sendInLoop message)
  | _ + 1, .sendBuffer, _ => none

/-- `send(Buffer*)`, with what it leaves of the buffer. -/
def sendBuffer (c : State) (t : Tid) (fuel : Nat) (buf : Buffer) : Option (Effect × Buffer) :=
  if c.state = .connected then
    if t = c.loopThread then do
      let message ← (Buffer.load buf.buffer buf.readIndex (buf.readIndex + buf.readableBytes)).toOption
      let f ← resolve .sendInLoop [.constCharPtr, .sizeT]
      let e ← c.run t fuel f message
      return (e, buf.retrieveAll)
    else do
      let (message, buf) ← buf.retrieveAllAsString.toOption
      return (.queueSendInLoop message, buf)
  else some (.nothing, buf)

/-- What `send` of a message should come to. -/
def sends (c : State) (t : Tid) (message : List Byte) : Effect :=
  if c.state = .connected then
    if t = c.loopThread then .sendInLoop message else .queueSendInLoop message
  else .nothing

end State

/-- All three return and come to the same, and the buffer is emptied if the message was accepted
and otherwise left alone. -/
def OverloadsAgree (c : State) (t : Tid) (message : List Byte) (buf : Buffer) : Prop :=
  ∃ fuel e b, c.run t fuel .sendBytes message = some e ∧
    c.run t fuel .sendString message = some e ∧ c.sendBuffer t fuel buf = some (e, b) ∧
    e = c.sends t message ∧ (if c.state = .connected then b.contents = [] else b = buf)

/-! ## 3. The effects on the connection -/

/-- What becomes of the connection; `write` is what `write(2)` answers to a `send_in_loop` run at
once. -/
def Effect.apply (c : State) (t : Tid) (write : WriteResult) : Effect → Option State
  | .nothing => some c
  | .sendInLoop message =>
    { c with called := c.called ++ [(t, message)] }.sendInLoop t message write
  | .queueSendInLoop message =>
    some ({ c with called := c.called ++ [(t, message)] }.queueInLoop (.sendInLoop t message))

variable {c : State} {t : Tid} {message : List Byte}

/-- On the loop thread that is the call of `send` of the connection's model. -/
theorem act_send (write : WriteResult) :
    c.act (.send message write) = (c.sends c.loopThread message).apply c c.loopThread write := by
  simp only [State.act, State.sends, if_true]
  split
  · rfl
  · rfl

/-- On another thread it is the two steps of the call, with nothing in between.  What can come
between is the business of the connection's model. -/
theorem threadStep_send (ht : t ≠ c.loopThread) (hidle : c.call t = .idle) (write : WriteResult) :
    ((c.threadStep t (.send message)).bind fun c =>
        if c.call t = .idle then some c else c.threadStep t .next) =
      (c.sends t message).apply c t write := by
  simp only [State.threadStep, ht, hidle, if_true, if_false, State.startCall, State.sends,
    Option.bind_some]
  split
  · have hback : Function.update (Function.update c.call t (.send message)) t .idle = c.call := by
      rw [Function.update_idem, ← hidle, Function.update_eq_self]
    simp [State.setCall, State.nextStep, State.queueInLoop, Effect.apply, ht, hback]
  · simp [Effect.apply]

/-! ## 4. Which of them agree -/

/-- **`send(const void*, int)` calls itself**: its `const char*` converts to `const void*`, and
no other `send` takes two arguments.  So no depth of calls is enough. -/
theorem sendBytes_never_returns (c : State) (t : Tid) (message : List Byte) (fuel : Nat) :
    c.run t fuel .sendBytes message = none := by
  have hself : resolve .send [.constCharPtr, .int] = some .sendBytes := by decide
  induction fuel with
  | zero => rfl
  | succ fuel ih =>
    rw [State.run, hself]
    exact ih

/-- `send_in_loop` of a string goes to the other `send_in_loop`, and there it ends. -/
theorem run_sendInLoopString (c : State) (t : Tid) (message : List Byte) (fuel : Nat) :
    c.run t (fuel + 2) .sendInLoopString message = some (.sendInLoop message) := by
  have hbytes : resolve .sendInLoop [.constCharPtr, .sizeT] = some .sendInLoopBytes := by decide
  rw [State.run, hbytes]
  rfl

theorem run_sendString (c : State) (t : Tid) (message : List Byte) (fuel : Nat) :
    c.run t (fuel + 3) .sendString message = some (c.sends t message) := by
  have hstring : resolve .sendInLoop [.string] = some .sendInLoopString := by decide
  rw [State.run, State.sends]
  split
  · split
    · rw [hstring]
      exact run_sendInLoopString c t message fuel
    · rfl
  · rfl

/-- `send(Buffer*)` sends the readable bytes, and empties the buffer if it sends them. -/
theorem sendBuffer_spec (c : State) (t : Tid) {buf : Buffer} (hb : buf.Wf) (fuel : Nat) :
    ∃ b, c.sendBuffer t (fuel + 1) buf = some (c.sends t buf.contents, b) ∧ b.Wf ∧
      (if c.state = .connected then b.contents = [] else b = buf) := by
  have hbytes : resolve .sendInLoop [.constCharPtr, .sizeT] = some .sendInLoopBytes := by decide
  rw [State.sendBuffer, State.sends]
  split
  · split
    · have hend : buf.readIndex + buf.readableBytes = buf.writeIndex := by
        have := hb.le
        rw [hb.readable]
        omega
      rw [hend, Buffer.load_eq hb.le hb.bound, hbytes]
      obtain ⟨hwf, hempty⟩ := Buffer.retrieveAll_spec hb
      exact ⟨buf.retrieveAll, rfl, hwf, hempty⟩
    · obtain ⟨b, heq, hwf, hempty⟩ := Buffer.retrieveAllAsString_spec hb
      rw [heq]
      exact ⟨b, rfl, hwf, hempty⟩
  · exact ⟨buf, rfl, hb, rfl⟩

/-- **Two of the overloads agree.**  For every state of the connection, thread and `Buffer`:
`send(const std::string&)` of its readable bytes and `send(Buffer*)` both return and come to the
same, one `send_in_loop`, run or queued, if the connection is up, and nothing otherwise; and the
buffer is emptied exactly then. -/
theorem string_buffer_agree (c : State) (t : Tid) (buf : Buffer) (hb : buf.Wf) :
    ∃ fuel b, c.run t fuel .sendString buf.contents = some (c.sends t buf.contents) ∧
      c.sendBuffer t fuel buf = some (c.sends t buf.contents, b) ∧
      (if c.state = .connected then b.contents = [] else b = buf) := by
  obtain ⟨b, hsend, -, hleft⟩ := sendBuffer_spec c t hb 2
  exact ⟨3, b, run_sendString c t buf.contents 0, hsend, hleft⟩

/-- **The three never agree.**  In no state of the connection, on no thread and for no message
does `send(const void*, int)` return, so the three overloads agree on no message. -/
theorem send_overloads (c : State) (t : Tid) (message : List Byte) (buf : Buffer) :
    ¬ OverloadsAgree c t message buf := by
  rintro ⟨fuel, e, b, hbytes, -⟩
  rw [sendBytes_never_returns] at hbytes
  cases hbytes

/-- A connection that is up, on its own thread, and one byte to send. -/
theorem send_one_byte :
    ¬ OverloadsAgree ((State.init 0 false 1024 false false).setState .connected) 0 [7]
      ⟨[0, 0, 0, 0, 0, 0, 0, 0, 7], 8, 9⟩ := by
  rintro ⟨fuel, e, b, hbytes, -⟩
  rw [sendBytes_never_returns] at hbytes
  cases hbytes

end Suduo.TcpConnection
