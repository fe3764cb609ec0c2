/-
# The time on its way from the server to the screen

`server_aa19.c` prints the time into a buffer that it never clears and sends all of it; the daemon
receives it into a buffer that it never clears either, copies the string to the payload of a packet,
and, at the other end, the payload to a `struct odr_reply`; `msg_recv` copies this out of a block
that `malloc` gave it, and the client prints the string.

`msg_recv` does not set the length that it hands to `recvfrom` for the sender's address.  The stack
decides it, and when it is negative the call fails: at its first try the client then prints nothing
and asks once more, at its second it prints what the block holds.

When the receive goes through, what the client prints is what the server has printed
(`printReply_replyMemory`), whatever the buffers held before.
-/
import Odr.Local.WireFormat
import Odr.Local.ServerName

namespace Odr

open Buffer

/-! ## The server -/

/-- What `server_aa19.c` keeps from one request to the next: `time_str`, and in `server_un` the
address that the last request came from. -/
structure Server (A : Type*) where
  timeStr : Bytes
  serverUn : Option A

section Server

variable {A : Type*}

/-- `msg_recv_srv`.  The two bytes are read into a block that nobody reads; what is left of the
request is the address that it came from. -/
def msgRecvSrv (s : Server A) : Option (A × Bytes) → Server A × ℤ
  | some (sender, data) => ({ s with serverUn := some sender }, min data.length 2)
  | none => (s, -1)

/-- `snprintf(time_str, 32, "%.24s\r\n", ctime(&ticks))`. -/
def formatTime (timeStr ctime : Bytes) : Bytes :=
  put timeStr 0 ((stringAt ctime).take 24 ++ [13, 10, 0])

/-- `msg_send_srv`, with the datagrams that it sends: none while there is no address. -/
def msgSendSrv (s : Server A) : List (A × Bytes) :=
  (s.serverUn.map fun sender => (sender, s.timeStr.take 32)).toList

/-- One pass of `main`'s loop, which does not look at what `msg_recv_srv` returns. -/
def serverPass (s : Server A) (received : Option (A × Bytes)) (ctime : Bytes) :
    Server A × List (A × Bytes) :=
  let s := (msgRecvSrv s received).1
  let s := { s with timeStr := formatTime s.timeStr ctime }
  (s, msgSendSrv s)

end Server

/-- What the server tells of a time. -/
def told (ctime : Bytes) : Bytes := (stringAt ctime).take 24 ++ [13, 10]

/-! ## The client -/

/-- The `struct odr_reply` that `process_pack` fills in and sends, in memory that held `b`; the
address field comes from the packet. -/
def replyMemory (b : Bytes) (junk : Fin 14 → UInt8) (r : OdrReply) : Bytes :=
  puts b [(0, r.time), (32, addrField r.ip junk), (48, bytesOfInt r.port)]

/-- `msg_recv`, with the block that `malloc` gives it and what the stack holds in `odr_addr_len`:
what it returns, and what it leaves in `msg`, `ip` and `*port`. -/
def msgRecv (buffer : Bytes) (odrAddrLen : ℤ) (datagram : Option Bytes) : ℤ × Bytes × Bytes × ℤ :=
  -- `recvfrom` fails when the length it is given for the address is negative; nothing says what the
  -- block holds then, and `buffer` stands for that as well
  let received := if odrAddrLen < 0 then none else datagram
  let b := match received with
    | some data => recvInto buffer data 52
    | none => buffer
  (match received with | some data => min data.length 52 | none => -1,
    slice b 0 32, slice b 32 15, intAt b 48)

/-- What the client prints of a reply. -/
structure Printed where
  time : Bytes
  address : Bytes
deriving DecidableEq, Repr

/-- What `main` of `client_aa19.c` does with a reply.  The client looks at the result of `msg_recv`
at its first try alone, and asks again if that is negative; `forced` says that it has done so. -/
def printReply (forced : Bool) (buffer : Bytes) (odrAddrLen : ℤ) (datagram : Option Bytes) :
    Option Printed :=
  let r := msgRecv buffer odrAddrLen datagram
  if r.1 ≥ 0 ∨ forced then some ⟨stringAt (put r.2.1 30 [0]), stringAt r.2.2.1⟩ else none

/-! ## The time arrives -/

section

variable {b buffer reply : Bytes} {r : OdrReply} {ctime timeStr : Bytes} {junk : Fin 14 → UInt8}

/-- What the server tells has no NUL. -/
lemma ne_zero_of_mem_told {c : UInt8} (hc : c ∈ told ctime) : c ≠ 0 := by
  rcases List.mem_append.mp hc with hc | hc
  · exact ne_zero_of_mem_stringAt (List.mem_of_mem_take hc)
  · rcases List.mem_pair.mp hc with rfl | rfl <;> decide

lemma length_told_le (ctime : Bytes) : (told ctime).length ≤ 26 := by
  rw [told, List.length_append]
  exact Nat.add_le_add_right (List.length_take_le _ _) _

lemma formatTime_eq (timeStr ctime : Bytes) :
    ∃ rest, formatTime timeStr ctime = told ctime ++ 0 :: rest := by
  refine ⟨timeStr.drop ((told ctime).length + 1), ?_⟩
  simp [formatTime, put, told, Nat.add_assoc]

/-- What the daemon copies to the payload is the string and NULs. -/
lemma strncpy_formatTime (dst : Bytes) :
    strncpy [] (recvInto dst ((formatTime timeStr ctime).take 32) 32) 32
      = told ctime ++ List.replicate (32 - (told ctime).length) 0 := by
  have hlen := length_told_le ctime
  obtain ⟨rest, hrest⟩ := formatTime_eq timeStr ctime
  obtain ⟨n, hn⟩ := Nat.exists_eq_add_of_lt (show (told ctime).length < 32 by omega)
  have htake : (formatTime timeStr ctime).take 32 = told ctime ++ 0 :: rest.take n := by
    rw [hrest, List.take_append, List.take_of_length_le (by omega),
      show 32 - (told ctime).length = n + 1 by omega, List.take_succ_cons]
  have hstring : stringAt (recvInto dst ((formatTime timeStr ctime).take 32) 32) = told ctime := by
    rw [recvInto, List.take_take, Nat.min_self, htake, List.append_assoc, List.cons_append]
    exact stringAt_append fun c hc => ne_zero_of_mem_told hc
  rw [stringAt] at hstring
  rw [strncpy, hstring, List.take_of_length_le (by omega), List.drop_nil, List.append_nil]

/-- The reply arrives as it was sent. -/
lemma slice_reply {data : Bytes} {off k : ℕ} (hdata : data.length = 52) (hle : off + k ≤ 52) :
    slice (recvInto buffer data 52) off k = slice data off k := by
  refine slice_congr ?_ hle
  rw [recvInto, List.take_left' (by rw [List.length_take]; omega), List.take_of_length_le hdata.le]

/-- **The client prints what the server has told**, whatever the buffers held, when its receive
goes through. -/
theorem printReply_replyMemory (hb : b.length = 52) (hip : Latin r.ip.str)
    (htime : r.time = told ctime ++ List.replicate (32 - (told ctime).length) 0) (forced : Bool)
    {odrAddrLen : ℤ} (hrecv : 0 ≤ odrAddrLen) :
    printReply forced buffer odrAddrLen (some (replyMemory b junk r)) =
      some ⟨told ctime, textBytes r.ip.str⟩ := by
  have hlen := length_told_le ctime
  have htime32 : r.time.length = 32 := by
    rw [htime, List.length_append, List.length_replicate]
    omega
  have hin : ∀ w ∈ [(0, r.time), (32, addrField r.ip junk), (48, bytesOfInt r.port)],
      w.1 + w.2.length ≤ b.length := by
    simp [htime32, length_addrField, hb, bytesOfInt]
  have hap : [(0, r.time), (32, addrField r.ip junk), (48, bytesOfInt r.port)].Pairwise
      fun v w => Apart v.1 v.2.length w := by
    simp [Apart, htime32, length_addrField]
  have hdata : (replyMemory b junk r).length = 52 := (length_puts hin).trans hb
  have h₁ : slice (recvInto buffer (replyMemory b junk r) 52) 0 32 = r.time := by
    rw [slice_reply hdata (by decide), ← htime32]
    exact slice_puts_of_mem hin hap (w := (0, r.time)) (by simp)
  have h₂ : slice (recvInto buffer (replyMemory b junk r) 52) 32 15 = addrField r.ip junk := by
    rw [slice_reply hdata (by decide), ← length_addrField r.ip junk]
    exact slice_puts_of_mem hin hap (w := (32, addrField r.ip junk)) (by simp)
  have htold : stringAt (put r.time 30 [0]) = told ctime := by
    obtain ⟨n, hn⟩ := Nat.exists_eq_add_of_lt (show (told ctime).length < 30 by omega)
    have htake : r.time.take 30 = told ctime ++ 0 :: List.replicate n 0 := by
      rw [htime, List.take_append, List.take_of_length_le (by omega), List.take_replicate,
        show min (30 - (told ctime).length) (32 - (told ctime).length) = n + 1 by omega,
        List.replicate_succ]
    rw [put, htake, List.append_assoc, List.append_assoc, List.cons_append]
    exact stringAt_append fun c hc => ne_zero_of_mem_told hc
  have haddr : stringAt (addrField r.ip junk) = textBytes r.ip.str := by
    obtain ⟨rest, hrest⟩ := prefix_addrField r.ip junk
    rw [← hrest, List.append_assoc]
    exact stringAt_append fun c hc => ne_zero_of_mem_textBytes hip r.ip.no_nul hc
  simp only [printReply, msgRecv, if_neg (not_lt.mpr hrecv)]
  rw [if_pos (Or.inl (by omega)), h₁, h₂, htold, haddr]

end

end Odr
