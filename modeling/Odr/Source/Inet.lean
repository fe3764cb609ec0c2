/-
# Addresses and their dotted form

The daemon handles the canonical address of a machine as text, and its text comes from these
functions: `inet_ntop` and `inet_ntoa` write the dotted form of an address, `inet_aton` and
`inet_pton` read it back, and `Sock_ntop` writes the dotted form and a port, which `main` cuts
off.

`inet_aton` takes one to four parts in the bases of `strtoul`, the last part filling the bytes
that are left, and stops at a white space; `inet_pton` takes nothing but a dotted form.
`inet_ntop` fails if the buffer is too small for the dotted form and its NUL, and then says
nothing about what is in the buffer.
-/
import Odr.Source.Packet

namespace Odr

/-- `struct in_addr`, byte by byte. -/
structure InAddr where
  a : UInt8
  b : UInt8
  c : UInt8
  d : UInt8
deriving DecidableEq, Repr

/-- The four bytes of a number, the highest first. -/
def InAddr.ofNat (n : ℕ) : InAddr :=
  ⟨.ofNat (n / 2 ^ 24), .ofNat (n / 2 ^ 16), .ofNat (n / 2 ^ 8), .ofNat n⟩

/-- A byte in decimal. -/
def decimal (x : UInt8) : List Char := Nat.toDigits 10 x.toNat

/-- The dotted form. -/
def dotted (x : InAddr) : List Char :=
  ['.'].intercalate [decimal x.a, decimal x.b, decimal x.c, decimal x.d]

/-- The value of a digit. -/
def digitValue (base : ℕ) (c : Char) : Option ℕ :=
  let v := if '0' ≤ c ∧ c ≤ '9' then c.toNat - 48
    else if 'a' ≤ c ∧ c ≤ 'f' then c.toNat - 87
    else if 'A' ≤ c ∧ c ≤ 'F' then c.toNat - 55
    else 16
  if v < base then some v else none

/-- The value of at least one digit. -/
def digitsValue (base : ℕ) (ds : List Char) : Option ℕ :=
  if ds = [] then none
  else ds.foldlM (fun acc c => (digitValue base c).map (base * acc + ·)) 0

/-- One part of an address, which begins with a digit: hexadecimal behind `0x`, octal behind `0`,
or decimal. -/
def partValue : List Char → Option ℕ
  | '0' :: 'x' :: ds => digitsValue 16 ds
  | '0' :: 'X' :: ds => digitsValue 16 ds
  | '0' :: ds => digitsValue 8 ('0' :: ds)
  | ds => digitsValue 10 ds

/-- One part of a dotted form: a number below 256 in decimal, without leading zeros. -/
def octetValue (ds : List Char) : Option UInt8 := do
  let n ← digitsValue 10 ds
  if n < 256 ∧ (ds = ['0'] ∨ ds.head? ≠ some '0') then some (.ofNat n) else none

/-- `inet_pton` for `AF_INET`. -/
def inetPton (text : List Char) : Option InAddr :=
  match (text.splitOn '.').mapM octetValue with
  | some [a, b, c, d] => some ⟨a, b, c, d⟩
  | _ => none

example : inetPton ['1', '0', '.', '0', '.', '2', '5', '5', '.', '3'] = some ⟨10, 0, 255, 3⟩ := by
  decide

example : inetPton ['1', '0', '.', '0', '1', '.', '0', '.', '3'] = none := by decide

/-- `isspace`. -/
def isspace (c : Char) : Bool := c = ' ' ∨ ('\t' ≤ c ∧ c ≤ '\r')

/-- `inet_aton`. -/
def inetAton (text : List Char) : Option InAddr :=
  match ((text.takeWhile fun c => !isspace c).splitOn '.').mapM partValue with
  | some [n] => if n < 2 ^ 32 then some (.ofNat n) else none
  | some [a, n] => if a < 2 ^ 8 ∧ n < 2 ^ 24 then some (.ofNat (a * 2 ^ 24 + n)) else none
  | some [a, b, n] =>
      if a < 2 ^ 8 ∧ b < 2 ^ 8 ∧ n < 2 ^ 16 then some (.ofNat (a * 2 ^ 24 + b * 2 ^ 16 + n))
      else none
  | some [a, b, c, n] =>
      if a < 2 ^ 8 ∧ b < 2 ^ 8 ∧ c < 2 ^ 8 ∧ n < 2 ^ 8 then
        some ⟨.ofNat a, .ofNat b, .ofNat c, .ofNat n⟩
      else none
  | _ => none

/-- The bytes of a text. -/
def bytesOfText (s : List Char) : Bytes := s.map fun c => UInt8.ofNat c.toNat

/-- The string in a buffer. -/
def textOfBytes (b : Bytes) : List Char := (b.takeWhile (· ≠ 0)).map fun c => Char.ofNat c.toNat

/-- What `strncmp` reads from a buffer of `size` bytes after `inet_ntop`; `unspecified` is what it
reads if `inet_ntop` fails. -/
def inetNtop (x : InAddr) (size : ℕ) (unspecified : CanIp) : CanIp :=
  if (dotted x).length + 1 ≤ size then .cut (dotted x) else unspecified

/-- `get_can_ip` on a machine with this address. -/
def getCanIp (x : InAddr) : CanIp := .cut (dotted x)

/-- The request that `msg_send` puts together in a `struct odr_req` on its stack. -/
def msgSend (stack : Bytes) (msg : List Char) (forcedDiscoveryFlag : ℤ) : OdrReq :=
  ⟨strncpy stack (bytesOfText msg) 15, forcedDiscoveryFlag⟩

/-- What `Sock_ntop` is relied on for: it writes the dotted form of the address that `inet_aton` has
read, or of what is `unspecified` in the memory that `malloc` gives `main` for an address. -/
def Resolver.Reads (rs : Resolver) (unspecified : InAddr) : Prop :=
  ∀ msg, rs.sockNtop msg = dotted ((inetAton (textOfBytes msg)).getD unspecified)

/-! ## Decimals -/

lemma digitValue_of_isDigit {c : Char} (hc : c.isDigit) :
    digitValue 10 c = some (c.toNat - '0'.toNat) := by
  have hle : '0' ≤ c ∧ c ≤ '9' := by
    simpa [Char.isDigit, Char.le_def] using hc
  have hlt : c.toNat - 48 < 10 := by
    have : c.toNat ≤ 57 := hle.2
    omega
  simp only [digitValue, if_pos hle, if_pos hlt]
  rfl

/-- Reading digits one after the other. -/
lemma foldlM_digitValue {ds : List Char} (hds : ∀ c ∈ ds, c.isDigit) (acc : ℕ) :
    ds.foldlM (fun acc c => (digitValue 10 c).map (10 * acc + ·)) acc =
      some (Nat.ofDigitChars 10 ds acc) := by
  induction ds generalizing acc with
  | nil => rfl
  | cons c ds ih =>
    rw [List.foldlM_cons, digitValue_of_isDigit (hds c List.mem_cons_self), Nat.ofDigitChars_cons]
    exact ih (fun d hd => hds d (List.mem_cons_of_mem c hd)) _

/-- A positive number does not begin with a zero. -/
lemma exists_toDigits_of_pos {n : ℕ} (hn : 0 < n) :
    ∃ c ds, Nat.toDigits 10 n = c :: ds ∧ c ≠ '0' := by
  induction n using Nat.strongRecOn with
  | _ n ih =>
    rcases lt_or_ge n 10 with hlt | hge
    · refine ⟨n.digitChar, [], Nat.toDigits_of_lt_base hlt, fun h => ?_⟩
      have hval := Nat.toNat_digitChar_sub_48_of_lt_ten hlt
      rw [h] at hval
      exact hn.ne hval
    · obtain ⟨c, ds, heq, hc⟩ := ih (n / 10) (by omega) (by omega)
      refine ⟨c, ds ++ [Nat.digitChar (n % 10)], ?_, hc⟩
      rw [Nat.toDigits_of_base_le (by decide) hge, heq, List.cons_append]

lemma partValue_of_ne {c : Char} {ds : List Char} (hc : c ≠ '0') :
    partValue (c :: ds) = digitsValue 10 (c :: ds) := by
  simp [partValue, hc]

lemma isDigit_of_mem_decimal {x : UInt8} {c : Char} (hc : c ∈ decimal x) : c.isDigit :=
  Nat.isDigit_of_mem_toDigits (by decide) (by decide) hc

/-- Behind a number other than zero the characters are read on as its digits. -/
lemma partValue_decimal_of_pos {x : UInt8} (hx : 0 < x.toNat) (l : List Char) :
    partValue (decimal x ++ l)
      = l.foldlM (fun acc c => (digitValue 10 c).map (10 * acc + ·)) x.toNat := by
  have hdigits : ∀ c ∈ decimal x, c.isDigit := fun c hc => isDigit_of_mem_decimal hc
  obtain ⟨c, ds, heq, hc⟩ := exists_toDigits_of_pos hx
  rw [decimal] at hdigits ⊢
  rw [heq, List.cons_append, partValue_of_ne hc, ← List.cons_append, ← heq, digitsValue,
    if_neg (by simp), List.foldlM_append, foldlM_digitValue hdigits,
    Nat.ofDigitChars_ten_toDigits]
  rfl

lemma partValue_decimal (x : UInt8) : partValue (decimal x) = some x.toNat := by
  rcases Nat.eq_zero_or_pos x.toNat with hx | hx
  · rw [decimal, hx]
    rfl
  · rw [← List.append_nil (decimal x), partValue_decimal_of_pos hx]
    rfl

/-- A letter behind a number spoils it. -/
lemma partValue_decimal_append (x : UInt8) : partValue (decimal x ++ ['x']) = none := by
  rcases Nat.eq_zero_or_pos x.toNat with hx | hx
  · rw [decimal, hx]
    rfl
  · rw [partValue_decimal_of_pos hx]
    rfl

lemma length_decimal (x : UInt8) : (decimal x).length ≤ 3 :=
  (Nat.length_toDigits_le_iff (by decide) (by decide)).mpr (x.toNat_lt.trans (by decide))

/-! ## The dotted form -/

lemma dotted_eq (x : InAddr) : dotted x =
    decimal x.a ++ ('.' :: decimal x.b ++ ('.' :: decimal x.c ++ '.' :: decimal x.d)) := by
  simp [dotted, List.intercalate]

lemma length_dotted (x : InAddr) : (dotted x).length ≤ 15 := by
  have ha := length_decimal x.a
  have hb := length_decimal x.b
  have hc := length_decimal x.c
  have hd := length_decimal x.d
  rw [dotted_eq]
  simp only [List.length_append, List.length_cons]
  omega

lemma mem_dotted {x : InAddr} {c : Char} (hc : c ∈ dotted x) : c.isDigit ∨ c = '.' := by
  rw [dotted_eq] at hc
  simp only [List.mem_append, List.mem_cons] at hc
  rcases hc with hc | (hc | hc) | (hc | hc) | hc | hc
  · exact Or.inl (isDigit_of_mem_decimal hc)
  · exact Or.inr hc
  · exact Or.inl (isDigit_of_mem_decimal hc)
  · exact Or.inr hc
  · exact Or.inl (isDigit_of_mem_decimal hc)
  · exact Or.inr hc
  · exact Or.inl (isDigit_of_mem_decimal hc)

lemma takeWhile_isspace {s : List Char} (hs : ∀ c ∈ s, c.isDigit ∨ c = '.' ∨ c = 'x') :
    (s.takeWhile fun c => !isspace c) = s := by
  rw [List.takeWhile_eq_self_iff]
  intro c hc
  rcases hs c hc with hdigit | rfl | rfl
  · have hle : (48 : ℕ) ≤ c.toNat := by
      simp only [Char.isDigit, Bool.and_eq_true, decide_eq_true_eq] at hdigit
      exact hdigit.1
    have hblank : c ≠ ' ' := by
      rintro rfl
      exact absurd hle (by decide)
    have hctl : ¬c ≤ '\r' := by
      intro hle'
      exact absurd (hle.trans (show c.toNat ≤ 13 from hle')) (by decide)
    simp [isspace, hblank, hctl]
  · decide
  · decide

lemma splitOn_intercalate_decimal {x : InAddr} {d : List Char}
    (hd : '.' ∉ d) : (['.'].intercalate [decimal x.a, decimal x.b, decimal x.c, d]).splitOn '.' =
      [decimal x.a, decimal x.b, decimal x.c, d] := by
  have hdot : ∀ y, '.' ∉ decimal y := by
    intro y hy
    exact absurd (isDigit_of_mem_decimal hy) (by decide)
  refine List.splitOn_intercalate '.' (fun l hl => ?_) (List.cons_ne_nil _ _)
  simp only [List.mem_cons, List.not_mem_nil, or_false] at hl
  rcases hl with rfl | rfl | rfl | rfl
  · exact hdot _
  · exact hdot _
  · exact hdot _
  · exact hd

/-- `inet_aton` reads a dotted form back. -/
lemma inetAton_dotted (x : InAddr) : inetAton (dotted x) = some x := by
  have hdot : '.' ∉ decimal x.d := fun hy => absurd (isDigit_of_mem_decimal hy) (by decide)
  have htoken := takeWhile_isspace (s := dotted x) fun c hc => (mem_dotted hc).imp_right Or.inl
  rw [inetAton, htoken, dotted, splitOn_intercalate_decimal hdot]
  simp only [List.mapM_cons, List.mapM_nil, partValue_decimal]
  have hlt : x.a.toNat < 2 ^ 8 ∧ x.b.toNat < 2 ^ 8 ∧ x.c.toNat < 2 ^ 8 ∧ x.d.toNat < 2 ^ 8 :=
    ⟨x.a.toNat_lt, x.b.toNat_lt, x.c.toNat_lt, x.d.toNat_lt⟩
  exact (if_pos hlt).trans (by simp only [UInt8.ofNat_toNat])

/-- A letter behind a dotted form makes it fail. -/
lemma inetAton_dotted_append (x : InAddr) : inetAton (dotted x ++ ['x']) = none := by
  have hdot : '.' ∉ decimal x.d ++ ['x'] := by
    rw [List.mem_append, not_or]
    exact ⟨fun hy => absurd (isDigit_of_mem_decimal hy) (by decide), by decide⟩
  have htoken := takeWhile_isspace (s := dotted x ++ ['x']) fun c hc => by
    rcases List.mem_append.mp hc with hc | hc
    · exact (mem_dotted hc).imp_right Or.inl
    · exact Or.inr (Or.inr (List.mem_singleton.mp hc))
  have happ : dotted x ++ ['x'] =
      ['.'].intercalate [decimal x.a, decimal x.b, decimal x.c, decimal x.d ++ ['x']] := by
    simp [dotted, List.intercalate]
  rw [inetAton, htoken, happ, splitOn_intercalate_decimal hdot]
  simp only [List.mapM_cons, List.mapM_nil, partValue_decimal, partValue_decimal_append]
  rfl

/-- The dotted form determines the address. -/
lemma dotted_injective : Function.Injective dotted := by
  intro x y h
  exact Option.some_injective _ ((inetAton_dotted x).symm.trans
    ((congrArg inetAton h).trans (inetAton_dotted y)))

/-! ## Text in buffers -/

/-- Characters that one byte holds, the NUL apart. -/
def IsText (s : List Char) : Prop := ∀ c ∈ s, c ≠ '\x00' ∧ c.toNat < 256

lemma isText_dotted (x : InAddr) : IsText (dotted x) := by
  intro c hc
  rcases mem_dotted hc with hdigit | rfl
  · simp only [Char.isDigit, Bool.and_eq_true, decide_eq_true_eq] at hdigit
    refine ⟨?_, lt_of_le_of_lt (show c.toNat ≤ 57 from hdigit.2) (by decide)⟩
    rintro rfl
    exact absurd hdigit.1 (by decide)
  · exact ⟨by decide, by decide⟩

/-- The bytes of a text are its string. -/
lemma takeWhile_bytesOfText {s : List Char} (hs : IsText s) :
    (bytesOfText s).takeWhile (· ≠ 0) = bytesOfText s := by
  rw [List.takeWhile_eq_self_iff, bytesOfText]
  intro x hx
  obtain ⟨c, hc, rfl⟩ := List.mem_map.mp hx
  obtain ⟨hne, hlt⟩ := hs c hc
  have hx : UInt8.ofNat c.toNat ≠ 0 := by
    intro hzero
    have hval := congrArg UInt8.toNat hzero
    rw [UInt8.toNat_ofNat', Nat.mod_eq_of_lt hlt] at hval
    exact hne (Char.toNat_inj.mp hval)
  simpa using hx

lemma map_bytesOfText {s : List Char} (hs : IsText s) :
    (bytesOfText s).map (fun b => Char.ofNat b.toNat) = s := by
  rw [bytesOfText, List.map_map]
  refine (List.map_congr_left fun c hc => ?_).trans (List.map_id s)
  rw [Function.comp_apply, UInt8.toNat_ofNat', Nat.mod_eq_of_lt (hs c hc).2, Char.ofNat_toNat, id]

/-- The string that `strncpy` leaves, if it is shorter than the room for it. -/
lemma takeWhile_strncpy {dst src : Bytes} {n : ℕ} (hlt : (src.takeWhile (· ≠ 0)).length < n) :
    (strncpy dst src n).takeWhile (· ≠ 0) = src.takeWhile (· ≠ 0) := by
  obtain ⟨k, hk⟩ := Nat.exists_eq_add_of_lt hlt
  have hpos : ∀ x ∈ src.takeWhile (· ≠ 0), decide (x ≠ 0) = true :=
    fun x hx => List.mem_takeWhile_imp (p := fun x : UInt8 => decide (x ≠ 0)) hx
  rw [strncpy, List.take_of_length_le hlt.le, hk, List.append_assoc,
    List.takeWhile_append_of_pos hpos, Nat.add_assoc, Nat.add_sub_cancel_left,
    List.replicate_succ, List.cons_append, List.takeWhile_cons_of_neg (by decide), List.append_nil]

/-- If the string takes all the room, there is no NUL behind it. -/
lemma takeWhile_strncpy_full {dst src : Bytes} {n : ℕ}
    (heq : (src.takeWhile (· ≠ 0)).length = n) :
    (strncpy dst src n).takeWhile (· ≠ 0) =
      src.takeWhile (· ≠ 0) ++ (dst.drop n).takeWhile (· ≠ 0) := by
  have hpos : ∀ x ∈ src.takeWhile (· ≠ 0), decide (x ≠ 0) = true :=
    fun x hx => List.mem_takeWhile_imp (p := fun x : UInt8 => decide (x ≠ 0)) hx
  rw [strncpy, List.take_of_length_le heq.le, heq, Nat.sub_self, List.replicate_zero,
    List.append_nil, List.takeWhile_append_of_pos hpos]

end Odr
