/-
# Addresses, packets and frames

The data types of `odr.h`, `common.h` and `hw_addrs.h` that the daemon reads and writes:
canonical IP strings, the packet `struct odr_pack` with its two headers, the request and
reply datagrams of the Unix socket, and the Ethernet frame that carries a packet.

The name service is outside the repository.  `Resolver` is what the daemon relies on: one
fixed answer of `getnameinfo` for each address string, and the dotted form that
`inet_aton` and `Sock_ntop` make of a request's text.
-/
import Mathlib

namespace Odr

/-- A six byte hardware address. -/
abbrev HwAddr := BitVec 48

/-- The Ethernet broadcast address `ff:ff:ff:ff:ff:ff`. -/
def broadcastAddr : HwAddr := BitVec.allOnes 48

/-- A text buffer, byte by byte. -/
abbrev Bytes := List UInt8

/-- `strncpy(dst, src, n)`: the bytes of `src` before its first NUL, at most `n` of them,
padded with NULs to `n`; the rest of `dst` stays. -/
def strncpy (dst src : Bytes) (n : ℕ) : Bytes :=
  let s := (src.takeWhile (· ≠ 0)).take n
  s ++ List.replicate (n - s.length) 0 ++ dst.drop n

/-- The contents of a `can_ip_str` field as `main` writes it: a string of at most 14
characters, the fifteenth byte being the terminating NUL. -/
structure CanIp where
  /-- The characters before the NUL. -/
  str : List Char
  length_le : str.length ≤ 14
  no_nul : '\x00' ∉ str
deriving DecidableEq, Repr

/-- The field that results from copying the first 14 characters of `s` and a NUL. -/
def CanIp.cut (s : List Char) : CanIp where
  str := (s.takeWhile (· ≠ '\x00')).take 14
  length_le := List.length_take_le 14 _
  no_nul := by
    intro h
    have h' := List.mem_takeWhile_imp (List.mem_of_mem_take h)
    simp at h'

/-- Nothing is cut off what fits. -/
lemma cut_str (ip : CanIp) : CanIp.cut ip.str = ip := by
  have hne : ∀ c ∈ ip.str, decide (c ≠ '\x00') = true := by
    intro c hc
    exact decide_eq_true fun h => ip.no_nul (h ▸ hc)
  have hstr : (CanIp.cut ip.str).str = ip.str :=
    (congrArg (List.take 14) (List.takeWhile_eq_self_iff.mpr hne)).trans
      (List.take_of_length_le ip.length_le)
  cases ip
  exact (CanIp.mk.injEq ..).mpr hstr

/-- What the daemon asks of the name service and of the address conversions.  No result is looked
at: of a text that `inet_pton` does not read, and of an address without a name that fits `host`,
`getnameinfo` makes what uninitialised memory held, and a `Resolver` stands for one content of that
memory. -/
structure Resolver where
  /-- The five bytes of `host` after `getnameinfo` on the address with this text. -/
  getnameinfo : List Char → Fin 5 → Int8
  /-- The dotted form that `inet_aton` followed by `Sock_ntop` makes of a text. -/
  sockNtop : Bytes → List Char

/-- `get_index_from_ip`: the number of the virtual machine an address belongs to, read off
the third and fourth character of its host name. -/
def getIndexFromIp (rs : Resolver) (ipStr : List Char) : ℤ :=
  let host := rs.getnameinfo ipStr
  if (host 3).toInt = 48 ∧ (host 2).toInt = 49 then 10 else (host 2).toInt - 48

/-- The type field of a packet; every other value of the `int` is `other`. -/
inductive PackType
  | rreq
  | rrep
  | data
  | other (t : ℤ)
deriving DecidableEq, Repr

/-- `struct rreq_hdr`. -/
structure RreqHdr where
  hop : ℤ
  broadcastId : ℤ
  forceDiscovery : ℤ
  rrepSent : ℤ
deriving DecidableEq, Repr

/-- `struct rrep_hdr`. -/
structure RrepHdr where
  hop : ℤ
  broadcastId : ℤ
  forceDiscovery : ℤ
deriving DecidableEq, Repr

/-- `struct odr_pack`. -/
structure OdrPack where
  type : PackType
  destCanIpStr : CanIp
  srcCanIpStr : CanIp
  rreq : RreqHdr
  rrep : RrepHdr
  payload : Bytes
  srcDest : ℤ
deriving DecidableEq, Repr

/-- The addresses of Unix sockets: a client's temporary path, or the time server's
well-known one. -/
inductive UnAddr
  | client (id : ℕ)
  | server
deriving DecidableEq, Repr

/-- `struct odr_req`, a client's request to the daemon of its own machine. -/
structure OdrReq where
  msg : Bytes
  forcedDiscovery : ℤ
deriving DecidableEq, Repr

/-- `struct odr_reply`, the daemon's answer to a client. -/
structure OdrReply where
  time : Bytes
  ip : CanIp
  port : ℤ
deriving DecidableEq, Repr

/-- The part of `struct if_info` that the senders use: the hardware address and the index
of an interface. -/
structure IfInfo where
  sllAddr : HwAddr
  sllIfindex : ℤ
deriving DecidableEq, Repr

/-- A frame handed to the link layer: the Ethernet header, the interface index given to
`sendto`, and the packet. -/
structure Frame where
  hDest : HwAddr
  hSource : HwAddr
  ifindex : ℤ
  pack : OdrPack
deriving DecidableEq, Repr

end Odr
