/-
# The client

`getserveraddr` of `client_aa19.c` reads the name of a server into a buffer of `main`, and `main`
asks the daemon for the time of that server, over and over again until the process ends.

The buffer is the memory from its first byte on, as far as it is known: `malloc` gives it five
bytes, and `scanf` writes a longer name all the same.  What the system answers to `main` on one
pass of its loop is a `Turn`.
-/
import Odr.Lib.Buffer
import Odr.Source.Inet

namespace Odr

open Buffer

/-- What the conversion `%s` reads: at least one byte, and no white space. -/
structure Token where
  bytes : Bytes
  ne_nil : bytes ≠ []
  no_space : ∀ c ∈ bytes, isspace (Char.ofNat c.toNat) = false
deriving DecidableEq, Repr

/-- `scanf("%s", vm_name)`: the token and a NUL are written into the buffer; at the end of the
input, and after a read error, nothing is. -/
def scanfString (vmName : Bytes) : Option Token → ℤ × Bytes
  | some token => (1, put vmName 0 (token.bytes ++ [0]))
  | none => (-1, vmName)

/-- The loop of `getserveraddr` that counts the bytes of the name, at most five. -/
def vmNameSize : Bytes → ℕ → ℕ
  | [], i => i
  | c :: vmName, i => if c ≠ 0 ∧ i < 5 then vmNameSize vmName (i + 1) else i

/-- A character of the source as a byte. -/
def byteOf (c : Char) : UInt8 := .ofNat c.toNat

/-- What `getserveraddr` returns once `scanf` has returned `ret`. -/
def checkName (ret : ℤ) (vmName : Bytes) : ℤ :=
  let ch := fun i => vmName.getD i 0
  if ch 0 = byteOf 'q' ∨ ch 0 = byteOf 'Q' then -2
  else
    let size := vmNameSize vmName 0
    if ret > 0 ∧ size > 0 then
      if size = 3 then
        if ch 0 = byteOf 'v' ∧ ch 1 = byteOf 'm' ∧ (ch 2 > byteOf '0' ∧ ch 2 ≤ byteOf '9') then 0
        else -1
      else if size = 4 then
        if ch 0 = byteOf 'v' ∧ ch 1 = byteOf 'm' ∧ ch 2 = byteOf '1' ∧ ch 3 = byteOf '0' then 0
        else -1
      else -1
    -- without a name the checks are skipped
    else 0

/-- `getserveraddr`, with the buffer that it leaves. -/
def getserveraddr (vmName : Bytes) (input : Option Token) : ℤ × Bytes :=
  let r := scanfString vmName input
  (checkName r.1 r.2, r.2)

/-- The string in the buffer. -/
def stringAt (vmName : Bytes) : Bytes := vmName.takeWhile (· ≠ 0)

/-- A call of `msg_send`: what its packet finds on the stack, and what `sendto` returns. -/
structure Send where
  stack : Bytes
  ret : ℤ

/-- One pass of `main`'s loop, as the system answers it. -/
structure Turn where
  input : Option Token
  /-- The temporary socket is made and bound; the process ends if not. -/
  bound : Bool
  send₁ : Send
  /-- The result of `msg_recv`, if there is something to receive within three seconds. -/
  reply₁ : Option ℤ
  send₂ : Send
  reply₂ : Option ℤ

/-- A request that the client makes, with the name it has looked up. -/
structure ClientRequest where
  name : Bytes
  req : OdrReq
deriving DecidableEq

section Main

variable (gethostbyname : Bytes → Option InAddr)

/-- One pass of the loop: the requests made, and the buffer if the process goes on. -/
def clientTurn (serverName : Bytes) (t : Turn) : List ClientRequest × Option Bytes :=
  let r := getserveraddr serverName t.input
  if r.1 = -1 then ([], none)
  else if r.1 = -2 then ([], none)
  else
    match gethostbyname (stringAt r.2) with
    -- the result is used without a look at it
    | none => ([], none)
    | some addr =>
        if t.bound = false then ([], none)
        else
          let request := fun (send : Send) (forcedDiscoveryFlag : ℤ) =>
            ClientRequest.mk (stringAt r.2) (msgSend send.stack (dotted addr) forcedDiscoveryFlag)
          if t.send₁.ret = -1 then ([request t.send₁ 0], none)
          else if ∃ ret ∈ t.reply₁, ret ≥ 0 then ([request t.send₁ 0], some r.2)
          else if t.send₂.ret = -1 then ([request t.send₁ 0, request t.send₂ 1], none)
          else if t.reply₂ = none then ([request t.send₁ 0, request t.send₂ 1], none)
          else ([request t.send₁ 0, request t.send₂ 1], some r.2)

/-- `main`: the requests of all passes, each with the input of its pass. -/
def clientMain : Bytes → List Turn → List (Option Token × ClientRequest)
  | _, [] => []
  | serverName, t :: ts =>
      let r := clientTurn gethostbyname serverName t
      r.1.map (fun request => (t.input, request)) ++
        match r.2 with
        | none => []
        | some serverName' => clientMain serverName' ts

end Main

end Odr
