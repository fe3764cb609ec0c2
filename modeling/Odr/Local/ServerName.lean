/-
# Which names the client accepts

The names are `vm1` to `vm10`, and `q` or `Q` ends the client.  `getserveraddr` looks at the buffer,
not at what `scanf` returns, except in the condition under which it checks the name at all; without
that it returns `0`.  So at the end of the input it goes by what an earlier call has left in the
buffer, and it accepts a token whose first byte is a NUL; and since the buffer is read as a string,
a token that goes on behind a NUL passes for what stands before it.

In all other cases it accepts exactly its grammar (`getserveraddr_exact_iff`), and the client makes
no request for a name that was not entered in that call.
-/
import Odr.Source.Client

namespace Odr

open Buffer

/-- The names of the machines. -/
def vmNames : List Bytes :=
  [['v', 'm', '1'], ['v', 'm', '2'], ['v', 'm', '3'], ['v', 'm', '4'], ['v', 'm', '5'],
    ['v', 'm', '6'], ['v', 'm', '7'], ['v', 'm', '8'], ['v', 'm', '9'],
    ['v', 'm', '1', '0']].map bytesOfText

/-- A token was read and is one of the names. -/
def IsName (input : Option Token) : Prop := ∃ token ∈ input, token.bytes ∈ vmNames

/-- A token was read and begins with `q` or `Q`. -/
def IsQuit (input : Option Token) : Prop :=
  ∃ token ∈ input, token.bytes.head? = some (byteOf 'q') ∨ token.bytes.head? = some (byteOf 'Q')

/-- `getserveraddr` accepts its grammar, and `main` makes requests for what was entered only. -/
structure Exact (vmName : Bytes) (input : Option Token) : Prop where
  accepts : (getserveraddr vmName input).1 = 0 ↔ IsName input
  quits : (getserveraddr vmName input).1 = -2 ↔ IsQuit input
  rejects : (getserveraddr vmName input).1 = -1 ↔ ¬IsName input ∧ ¬IsQuit input
  requests : ∀ (gethostbyname : Bytes → Option InAddr) (t : Turn), t.input = input →
    ∀ request ∈ (clientTurn gethostbyname vmName t).1,
      ∃ token ∈ input, token.bytes = request.name

/-- A token was read, and if it has a NUL, what stands before the first one is neither empty nor
one of the names. -/
def Clean (input : Option Token) : Prop :=
  ∃ token ∈ input, 0 ∈ token.bytes →
    stringAt token.bytes ≠ [] ∧ stringAt token.bytes ∉ vmNames

section

variable {vmName s rest : Bytes}

/-! ## The checks -/

/-- The digits from `1` to `9`. -/
lemma eq_of_digit {c : UInt8} (hlt : c > byteOf '0') (hle : c ≤ byteOf '9') :
    c ∈ ['1', '2', '3', '4', '5', '6', '7', '8', '9'].map byteOf := by
  have hlt : 48 < c.toNat := UInt8.lt_iff_toNat_lt.mp hlt
  have hle : c.toNat ≤ 57 := UInt8.le_iff_toNat_le.mp hle
  have hc : c = .ofNat c.toNat := by simp
  generalize c.toNat = n at hlt hle hc
  subst hc
  interval_cases n <;> decide

lemma mem_vmNames_iff :
    s ∈ vmNames ↔
      (∃ c, s = [byteOf 'v', byteOf 'm', c] ∧ c > byteOf '0' ∧ c ≤ byteOf '9') ∨
        s = [byteOf 'v', byteOf 'm', byteOf '1', byteOf '0'] := by
  constructor
  · intro h
    simp only [vmNames, List.map_cons, List.map_nil, List.mem_cons, List.not_mem_nil,
      or_false] at h
    rcases h with rfl | rfl | rfl | rfl | rfl | rfl | rfl | rfl | rfl | rfl
    iterate 9 exact Or.inl ⟨_, rfl, by decide, by decide⟩
    exact Or.inr rfl
  · rintro (⟨c, rfl, hlt, hle⟩ | rfl)
    · have hc := eq_of_digit hlt hle
      simp only [List.map_cons, List.map_nil, List.mem_cons, List.not_mem_nil, or_false] at hc
      rcases hc with rfl | rfl | rfl | rfl | rfl | rfl | rfl | rfl | rfl <;> decide
    · decide

lemma vmNameSize_five (vmName : Bytes) : vmNameSize vmName 5 = 5 := by
  cases vmName with
  | nil => rfl
  | cons c vmName => simp [vmNameSize]

/-- What is checked is the string. -/
lemma checkName_token (hs : ∀ c ∈ s, c ≠ 0) :
    checkName 1 (s ++ 0 :: rest) =
      if s.head? = some (byteOf 'q') ∨ s.head? = some (byteOf 'Q') then -2
      else if s = [] ∨ s ∈ vmNames then 0
      else -1 := by
  simp only [mem_vmNames_iff]
  rcases s with _ | ⟨a, _ | ⟨b, _ | ⟨c, _ | ⟨d, s⟩⟩⟩⟩
  · simp [checkName, vmNameSize, byteOf]
  · have ha : a ≠ 0 := hs a (by simp)
    simp [checkName, vmNameSize, ha]
  · have ha : a ≠ 0 := hs a (by simp)
    have hb : b ≠ 0 := hs b (by simp)
    simp [checkName, vmNameSize, ha, hb]
  · have ha : a ≠ 0 := hs a (by simp)
    have hb : b ≠ 0 := hs b (by simp)
    have hc : c ≠ 0 := hs c (by simp)
    simp [checkName, vmNameSize, ha, hb, hc, and_assoc]
  · have ha : a ≠ 0 := hs a (by simp)
    have hb : b ≠ 0 := hs b (by simp)
    have hc : c ≠ 0 := hs c (by simp)
    have hd : d ≠ 0 := hs d (by simp)
    rcases s with _ | ⟨e, s⟩
    · simp [checkName, vmNameSize, ha, hb, hc, hd]
    · have he : e ≠ 0 := hs e (by simp)
      simp [checkName, vmNameSize, ha, hb, hc, hd, he, vmNameSize_five]

/-! ## What a call returns -/

lemma ne_zero_of_mem_stringAt {c : UInt8} (hc : c ∈ stringAt vmName) : c ≠ 0 := by
  simpa using List.mem_takeWhile_imp hc

lemma stringAt_append (hs : ∀ c ∈ s, c ≠ 0) : stringAt (s ++ 0 :: rest) = s := by
  have hall : ∀ c ∈ s, decide (c ≠ 0) = true := fun c hc => decide_eq_true (hs c hc)
  rw [stringAt, List.takeWhile_append_of_pos hall]
  simp

lemma stringAt_of_no_nul (h : 0 ∉ s) : stringAt s = s := by
  rw [stringAt, List.takeWhile_eq_self_iff]
  exact fun c hc => decide_eq_true (ne_of_mem_of_not_mem hc h)

lemma head?_stringAt {c : UInt8} (hc : c ≠ 0) :
    (stringAt s).head? = some c ↔ s.head? = some c := by
  rcases s with _ | ⟨a, s⟩
  · rfl
  · by_cases ha : a = 0
    · simp [stringAt, ha, hc.symm]
    · simp [stringAt, ha]

/-- After a token the buffer holds its string. -/
lemma exists_scanfString (vmName : Bytes) (token : Token) :
    ∃ rest, (scanfString vmName (some token)).2 = stringAt token.bytes ++ 0 :: rest := by
  have hsplit := List.takeWhile_append_dropWhile (p := (· ≠ 0)) (l := token.bytes)
  have hput : (scanfString vmName (some token)).2
      = token.bytes ++ 0 :: vmName.drop (token.bytes.length + 1) := by
    simp [scanfString, put]
  rw [hput]
  generalize vmName.drop (token.bytes.length + 1) = old
  rcases hdrop : token.bytes.dropWhile (· ≠ 0) with _ | ⟨c, tail⟩
  · rw [hdrop, List.append_nil] at hsplit
    exact ⟨_, by rw [stringAt, hsplit]⟩
  · have hc : c = 0 := by
      have hhead := List.head?_dropWhile_not (· ≠ 0) token.bytes
      rw [hdrop] at hhead
      simpa using hhead
    refine ⟨tail ++ 0 :: old, ?_⟩
    conv_lhs => rw [← hsplit, hdrop, hc]
    simp [stringAt]

lemma getserveraddr_token (vmName : Bytes) (token : Token) :
    (getserveraddr vmName (some token)).1 =
      if token.bytes.head? = some (byteOf 'q') ∨ token.bytes.head? = some (byteOf 'Q') then -2
      else if stringAt token.bytes = [] ∨ stringAt token.bytes ∈ vmNames then 0
      else -1 := by
  obtain ⟨rest, hrest⟩ := exists_scanfString vmName token
  have hcheck : checkName 1 (stringAt token.bytes ++ 0 :: rest) = _ :=
    checkName_token fun c => ne_zero_of_mem_stringAt
  have hq : byteOf 'q' ≠ 0 := by decide
  have hQ : byteOf 'Q' ≠ 0 := by decide
  rw [← hrest] at hcheck
  simp only [head?_stringAt hq, head?_stringAt hQ] at hcheck
  exact hcheck

/-- Without a token the checks are skipped. -/
lemma getserveraddr_none (vmName : Bytes) :
    (getserveraddr vmName none).1 = 0 ∨ (getserveraddr vmName none).1 = -2 := by
  have hcheck : (getserveraddr vmName none).1 = checkName (-1) vmName := rfl
  rw [hcheck, checkName]
  by_cases hq : vmName.getD 0 0 = byteOf 'q' ∨ vmName.getD 0 0 = byteOf 'Q'
  · exact Or.inr (if_pos hq)
  · exact Or.inl ((if_neg hq).trans (if_neg (by simp)))

lemma no_nul_of_mem_vmNames (h : s ∈ vmNames) : 0 ∉ s := by
  have hall : ∀ s ∈ vmNames, (0 : UInt8) ∉ s := by decide
  exact hall s h

lemma head?_of_mem_vmNames (h : s ∈ vmNames) : s.head? = some (byteOf 'v') := by
  have hall : ∀ s ∈ vmNames, s.head? = some (byteOf 'v') := by decide
  exact hall s h

/-- Reading the token as a string changes nothing. -/
lemma clean_iff (token : Token) :
    Clean (some token) ↔
      ((stringAt token.bytes = [] ∨ stringAt token.bytes ∈ vmNames) ↔
        token.bytes ∈ vmNames) := by
  simp only [Clean, Option.mem_def, Option.some.injEq, exists_eq_left']
  by_cases hnul : 0 ∈ token.bytes
  · have hnot : token.bytes ∉ vmNames := fun h => no_nul_of_mem_vmNames h hnul
    simp [hnul, hnot]
  · simp [hnul, stringAt_of_no_nul hnul, token.ne_nil]

/-! ## What is requested -/

variable {gethostbyname : Bytes → Option InAddr} {t : Turn} {request : ClientRequest}

/-- A request is made for the string in the buffer, if `getserveraddr` has not failed. -/
lemma name_of_mem_clientTurn (h : request ∈ (clientTurn gethostbyname vmName t).1) :
    (getserveraddr vmName t.input).1 ≠ -1 ∧ (getserveraddr vmName t.input).1 ≠ -2 ∧
      request.name = stringAt (getserveraddr vmName t.input).2 := by
  simp only [clientTurn] at h
  split at h
  · simp at h
  next hreject =>
  split at h
  · simp at h
  next hquit =>
  split at h
  · simp at h
  next addr haddr =>
  refine ⟨hreject, hquit, ?_⟩
  split_ifs at h
  · simp at h
  all_goals
    simp only [List.mem_cons, List.not_mem_nil, or_false] at h
  · rw [h]
  · rw [h]
  all_goals
    rcases h with rfl | rfl <;> rfl

/-- The buffer of the next pass is the one that `getserveraddr` has left. -/
lemma buffer_of_clientTurn {serverName : Bytes}
    (h : (clientTurn gethostbyname vmName t).2 = some serverName) :
    serverName = (getserveraddr vmName t.input).2 := by
  simp only [clientTurn] at h
  split at h
  · simp at h
  split at h
  · simp at h
  split at h
  · simp at h
  split_ifs at h
  · exact (Option.some_injective _ h).symm
  · exact (Option.some_injective _ h).symm

lemma mem_clientMain {ts : List Turn} {e : Option Token × ClientRequest}
    (h : e ∈ clientMain gethostbyname vmName ts) :
    ∃ t ∈ ts, ∃ vmName', e.1 = t.input ∧ e.2 ∈ (clientTurn gethostbyname vmName' t).1 := by
  induction ts generalizing vmName with
  | nil => simp [clientMain] at h
  | cons t ts ih =>
    rw [clientMain] at h
    rcases List.mem_append.mp h with h | h
    · obtain ⟨request, hmem, rfl⟩ := List.mem_map.mp h
      exact ⟨t, List.mem_cons_self, vmName, rfl, hmem⟩
    · split at h
      · simp at h
      · obtain ⟨t', ht', hrest⟩ := ih h
        exact ⟨t', List.mem_cons_of_mem _ ht', hrest⟩

/-! ## The grammar -/

/-- After a token that is one of the names, the buffer holds the name. -/
lemma stringAt_scanfString (vmName : Bytes) {token : Token} (h : token.bytes ∈ vmNames) :
    stringAt (scanfString vmName (some token)).2 = token.bytes := by
  obtain ⟨rest, hrest⟩ := exists_scanfString vmName token
  rw [hrest, stringAt_append fun c => ne_zero_of_mem_stringAt]
  exact stringAt_of_no_nul (no_nul_of_mem_vmNames h)

/-- What a call returns on a token for which reading it as a string changes nothing. -/
lemma getserveraddr_of_clean {token : Token} (h : Clean (some token)) (vmName : Bytes) :
    (getserveraddr vmName (some token)).1 =
      if token.bytes.head? = some (byteOf 'q') ∨ token.bytes.head? = some (byteOf 'Q') then -2
      else if token.bytes ∈ vmNames then 0
      else -1 := by
  rw [getserveraddr_token]
  simp only [(clean_iff token).mp h]

lemma not_quit_of_mem_vmNames (h : s ∈ vmNames) :
    ¬(s.head? = some (byteOf 'q') ∨ s.head? = some (byteOf 'Q')) := by
  rw [head?_of_mem_vmNames h]
  decide

/-- The results of a call on such a token. -/
lemma returns_of_clean {token : Token} (h : Clean (some token)) (vmName : Bytes) :
    (IsQuit (some token) ∧ ¬IsName (some token) ∧ (getserveraddr vmName (some token)).1 = -2) ∨
      (¬IsQuit (some token) ∧ IsName (some token) ∧ (getserveraddr vmName (some token)).1 = 0) ∨
      (¬IsQuit (some token) ∧ ¬IsName (some token) ∧
        (getserveraddr vmName (some token)).1 = -1) := by
  have hname : IsName (some token) ↔ token.bytes ∈ vmNames := by simp [IsName]
  have hquit : IsQuit (some token) ↔
      token.bytes.head? = some (byteOf 'q') ∨ token.bytes.head? = some (byteOf 'Q') := by
    simp [IsQuit]
  rw [hname, hquit, getserveraddr_of_clean h]
  split_ifs with hq hn
  · exact Or.inl ⟨hq, fun hn => not_quit_of_mem_vmNames hn hq, rfl⟩
  · exact Or.inr (Or.inl ⟨hq, hn, rfl⟩)
  · exact Or.inr (Or.inr ⟨hq, hn, rfl⟩)

lemma exact_of_clean {input : Option Token} (h : Clean input) (vmName : Bytes) :
    Exact vmName input := by
  obtain ⟨token, htoken, -⟩ := id h
  obtain rfl : input = some token := htoken
  have hreturns := returns_of_clean h vmName
  refine ⟨?_, ?_, ?_, ?_⟩
  · rcases hreturns with ⟨hq, hn, hr⟩ | ⟨hq, hn, hr⟩ | ⟨hq, hn, hr⟩ <;> simp [hn, hr]
  · rcases hreturns with ⟨hq, hn, hr⟩ | ⟨hq, hn, hr⟩ | ⟨hq, hn, hr⟩ <;> simp [hq, hr]
  · rcases hreturns with ⟨hq, hn, hr⟩ | ⟨hq, hn, hr⟩ | ⟨hq, hn, hr⟩ <;> simp [hq, hn, hr]
  · rintro gethostbyname t hinput request hmem
    obtain ⟨hreject, hquit, hreq⟩ := name_of_mem_clientTurn hmem
    rw [hinput] at hreject hquit hreq
    have hn : IsName (some token) := by
      rcases hreturns with ⟨hq, hn, hr⟩ | ⟨hq, hn, hr⟩ | ⟨hq, hn, hr⟩
      · exact absurd hr hquit
      · exact hn
      · exact absurd hr hreject
    obtain ⟨token', htoken', hmem'⟩ := hn
    obtain rfl : token = token' := Option.some_injective _ htoken'
    exact ⟨token, rfl, (hreq.trans (stringAt_scanfString vmName hmem')).symm⟩

lemma clean_of_exact {input : Option Token} (h : Exact vmName input) : Clean input := by
  rcases input with _ | token
  · exfalso
    rcases getserveraddr_none vmName with hr | hr
    · obtain ⟨token, htoken, -⟩ := h.accepts.mp hr
      simp at htoken
    · obtain ⟨token, htoken, -⟩ := h.quits.mp hr
      simp at htoken
  · refine ⟨token, rfl, fun hnul => not_or.mp fun hstring => ?_⟩
    -- a string that is empty or a name is accepted, but the token is not a name
    have hquit : ¬((stringAt token.bytes).head? = some (byteOf 'q') ∨
        (stringAt token.bytes).head? = some (byteOf 'Q')) := by
      rcases hstring with hempty | hname
      · simp [hempty]
      · exact not_quit_of_mem_vmNames hname
    rw [head?_stringAt (by decide), head?_stringAt (by decide)] at hquit
    have hr : (getserveraddr vmName (some token)).1 = 0 := by
      rw [getserveraddr_token, if_neg hquit, if_pos hstring]
    obtain ⟨token', htoken', hmem'⟩ := h.accepts.mp hr
    obtain rfl : token = token' := Option.some_injective _ htoken'
    exact no_nul_of_mem_vmNames hmem' hnul

end

/-- **What the client accepts.** For every buffer, a call of `getserveraddr` accepts exactly its
grammar if and only if it reads a token, and a token with a NUL does not become a name, or empty,
where it is cut at the NUL.  In a run of `main` whose calls all read such tokens, every request is
made for the name that was entered in its own pass. -/
theorem getserveraddr_exact_iff (vmName : Bytes) (input : Option Token)
    (gethostbyname : Bytes → Option InAddr) (ts : List Turn) :
    (Exact vmName input ↔ Clean input) ∧
      ((∀ t ∈ ts, Clean t.input) → ∀ e ∈ clientMain gethostbyname vmName ts,
        ∃ token ∈ e.1, token.bytes = e.2.name) := by
  refine ⟨⟨clean_of_exact, fun h => exact_of_clean h vmName⟩, fun hclean e he => ?_⟩
  obtain ⟨t, ht, vmName', hinput, hmem⟩ := mem_clientMain he
  rw [hinput]
  exact (exact_of_clean (hclean t ht) vmName').requests gethostbyname t rfl e.2 hmem

/-- At the end of the input the name of the call before is accepted again. -/
theorem end_of_input_accepted :
    ¬∀ (vmName : Bytes) (input : Option Token), Exact vmName input := by
  intro h
  have hname : IsName none := (h [118, 109, 51, 0, 0] none).accepts.mp (by decide)
  obtain ⟨token, htoken, -⟩ := hname
  simp at htoken

/-- **Once the input is at its end**, whatever the client still requests is for the name that the
buffer held before. -/
theorem name_of_mem_clientMain_ended {gethostbyname : Bytes → Option InAddr} {serverName : Bytes}
    {ts : List Turn} (hended : ∀ t ∈ ts, t.input = none) {e : Option Token × ClientRequest}
    (he : e ∈ clientMain gethostbyname serverName ts) : e.2.name = stringAt serverName := by
  induction ts with
  | nil => simp [clientMain] at he
  | cons t ts ih =>
    have hinput := hended t List.mem_cons_self
    rw [clientMain] at he
    rcases List.mem_append.mp he with h | h
    · obtain ⟨request, hmem, rfl⟩ := List.mem_map.mp h
      obtain ⟨-, -, hname⟩ := name_of_mem_clientTurn hmem
      rw [hname, hinput]
      rfl
    · split at h
      · simp at h
      · next serverName' hnext =>
        obtain rfl : serverName' = serverName := by
          rw [buffer_of_clientTurn hnext, hinput]
          rfl
        exact ih (fun t' ht' => hended t' (List.mem_cons_of_mem _ ht')) h

end Odr
