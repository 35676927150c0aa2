import VioletGateway.Config
import VioletGateway.Support.Scan

/-!
# Addresses as text

Model of `parse_mac` and `parse_ipv4_be` of `pkt_filter.cpp`, of `mac_dump` of `util.cpp` and of
`append_ipv4` of `pkt_dump.cpp`. A `std::string_view` is a text with one character for each byte.

The texts that the parsers accept are given by grammars: `SpellsMac` for MAC addresses, and for IPv4
addresses the grammar of the `sscanf` format with the numbers bounded. The addresses that the gateway
prints are read back.
-/

set_option autoImplicit false

namespace VioletGateway.Util

open Support

/-! ## MAC addresses -/

/-- `hex_nibble`; the `-1` of the source is `none`. -/
def hexNibble (c : Char) : Option Nat :=
  if '0' ≤ c ∧ c ≤ '9' then some (c.toNat - '0'.toNat)
  else if 'a' ≤ c ∧ c ≤ 'f' then some (c.toNat - 'a'.toNat + 10)
  else if 'A' ≤ c ∧ c ≤ 'F' then some (c.toNat - 'A'.toNat + 10)
  else none

/-- The characters that may stand before each byte. -/
def isSeparator (c : Char) : Bool := c = ':' || c = '-' || c = ' '

/-- `(hi << 4) | lo`. -/
def hexByte (hi lo : Nat) : UInt8 := UInt8.ofNat (hi <<< 4 ||| lo)

/-- The loop of `parse_mac` with `n` bytes still to read: the bytes and the text left. -/
def parseMacLoop : Nat → Text → Option (List UInt8 × Text)
  | 0, s => some ([], s)
  | n + 1, s =>
      match s.dropWhile isSeparator with
      | hi :: lo :: rest => do
          let h ← hexNibble hi
          let l ← hexNibble lo
          let (bytes, rest) ← parseMacLoop n rest
          return (hexByte h l :: bytes, rest)
      -- also when the text has ended, which leaves the loop with fewer than six bytes
      | _ => none

/-- `parse_mac`. -/
def parseMac (s : Text) : Option EtherAddr :=
  if s = [] then none
  else
    match parseMacLoop 6 s with
    | some (bytes, rest) =>
        if rest.dropWhile isSpace = [] then some fun i => bytes.getD i 0 else none
    | none => none

/-- A nibble as `%02X` prints it. -/
def upperHex (n : Nat) : Char :=
  if n < 10 then Char.ofNat ('0'.toNat + n) else Char.ofNat ('A'.toNat + (n - 10))

/-- `%02X`. -/
def hexText (b : UInt8) : Text := [upperHex (b.toNat / 16), upperHex (b.toNat % 16)]

/-- `mac_dump`. -/
def macDump (mac : EtherAddr) : Text :=
  hexText (mac 0) ++ (List.ofFn fun i : Fin 5 => ':' :: hexText (mac i.succ)).flatten

/-- The text spells the bytes, each with two hexadecimal digits behind any number of separators, and
white space at the end. -/
inductive SpellsMac : List UInt8 → Text → Prop
  | done {spaces : Text} (h : ∀ c ∈ spaces, isSpace c = true) : SpellsMac [] spaces
  | byte {separators rest : Text} {hi lo : Char} {h l : Nat} {bytes : List UInt8}
      (hsep : ∀ c ∈ separators, isSeparator c = true) (hhi : hexNibble hi = some h)
      (hlo : hexNibble lo = some l) (hrest : SpellsMac bytes rest) :
      SpellsMac (hexByte h l :: bytes) (separators ++ hi :: lo :: rest)

theorem isSeparator_of_hexNibble {c : Char} {n : Nat} (h : hexNibble c = some n) :
    isSeparator c = false := by
  by_contra hs
  rw [Bool.not_eq_false] at hs
  simp only [isSeparator, Bool.or_eq_true, decide_eq_true_eq] at hs
  rcases hs with (rfl | rfl) | rfl <;> revert h <;> decide +revert

/-- What the loop takes off a text, in front of white space. -/
theorem spellsMac_of_loop {n : Nat} {s rest : Text} {bytes : List UInt8}
    (h : parseMacLoop n s = some (bytes, rest)) (hrest : ∀ c ∈ rest, isSpace c = true) :
    SpellsMac bytes s ∧ bytes.length = n := by
  induction n generalizing s bytes with
  | zero =>
      simp only [parseMacLoop, Option.some.injEq, Prod.mk.injEq] at h
      obtain ⟨rfl, rfl⟩ := h
      exact ⟨.done hrest, rfl⟩
  | succ n ih =>
      unfold parseMacLoop at h
      split at h
      · next hi lo t hdrop =>
          simp only [Option.bind_eq_bind, Option.bind_eq_some_iff, Option.pure_def,
            Option.some.injEq, Prod.mk.injEq] at h
          obtain ⟨x, hx, y, hy, ⟨bytes', rest'⟩, hloop, rfl, rfl⟩ := h
          obtain ⟨hspells, rfl⟩ := ih hloop
          have hs : s = s.takeWhile isSeparator ++ hi :: lo :: t := by
            rw [← hdrop, List.takeWhile_append_dropWhile]
          rw [hs]
          exact ⟨.byte (fun _ => List.mem_takeWhile_imp) hx hy hspells, rfl⟩
      · cases h

theorem loop_of_spellsMac {bytes : List UInt8} {s : Text} (h : SpellsMac bytes s) :
    ∃ rest, parseMacLoop bytes.length s = some (bytes, rest) ∧ ∀ c ∈ rest, isSpace c = true := by
  induction h with
  | done h => exact ⟨_, rfl, h⟩
  | @byte separators t hi lo x y bytes hsep hx hy hrest ih =>
      obtain ⟨rest, hloop, hspaces⟩ := ih
      -- the first digit is no separator, so the loop skips exactly the separators
      have hdrop : (separators ++ hi :: lo :: t).dropWhile isSeparator = hi :: lo :: t :=
        dropWhile_append_of_stopsAt hsep (stopsAt_cons _ (isSeparator_of_hexNibble hx))
      refine ⟨rest, ?_, hspaces⟩
      simp only [List.length_cons, parseMacLoop, hdrop, hx, hy, hloop, Option.bind_eq_bind,
        Option.bind_some, Option.pure_def]

theorem ofFn_getD {n : Nat} {bytes : List UInt8} (h : bytes.length = n) :
    (List.ofFn fun i : Fin n => bytes.getD i 0) = bytes := by
  subst h
  exact List.ext_getElem (by simp) (by simp)

theorem getD_ofFn {n : Nat} (f : Fin n → UInt8) : (fun i : Fin n => (List.ofFn f).getD i 0) = f := by
  funext i
  simp

theorem ne_nil_of_spellsMac {b : UInt8} {bytes : List UInt8} {s : Text}
    (h : SpellsMac (b :: bytes) s) : s ≠ [] := by
  cases h
  simp

theorem parseMac_eq_some_iff {s : Text} {mac : EtherAddr} :
    parseMac s = some mac ↔ SpellsMac (List.ofFn mac) s := by
  constructor
  · intro h
    unfold parseMac at h
    split at h
    · cases h
    · split at h
      · next bytes rest hloop =>
          split at h
          · next hdrop =>
              obtain ⟨hspells, hlen⟩ := spellsMac_of_loop hloop (List.dropWhile_eq_nil_iff.mp hdrop)
              rw [← Option.some.inj h, ofFn_getD hlen]
              exact hspells
          · cases h
      · cases h
  · intro h
    obtain ⟨rest, hloop, hspaces⟩ := loop_of_spellsMac h
    have hne : s ≠ [] := by
      rw [List.ofFn_succ] at h
      exact ne_nil_of_spellsMac h
    rw [List.length_ofFn] at hloop
    simp only [parseMac, if_neg hne, hloop, List.dropWhile_eq_nil_iff.mpr hspaces, if_pos,
      getD_ofFn]

/-! ### Printing and reading back -/

theorem hexNibble_upperHex {n : Nat} (h : n < 16) : hexNibble (upperHex n) = some n := by
  revert h n
  decide

theorem hexByte_nibbles (b : UInt8) : hexByte (b.toNat / 16) (b.toNat % 16) = b := by
  have hlow : b.toNat % 16 < 2 ^ 4 := Nat.mod_lt _ (by omega)
  apply UInt8.toNat.inj
  rw [hexByte, ← Nat.shiftLeft_add_eq_or_of_lt hlow, Nat.shiftLeft_eq, UInt8.toNat_ofNat',
    Nat.div_add_mod', Nat.mod_eq_of_lt b.toNat_lt]

theorem spellsMac_hexText {b : UInt8} {bytes : List UInt8} {rest : Text} (separators : Text)
    (hsep : ∀ c ∈ separators, isSeparator c = true) (h : SpellsMac bytes rest) :
    SpellsMac (b :: bytes) (separators ++ (hexText b ++ rest)) := by
  have hb := b.toNat_lt
  have hbyte := SpellsMac.byte hsep (hexNibble_upperHex (show b.toNat / 16 < 16 by omega))
    (hexNibble_upperHex (show b.toNat % 16 < 16 by omega)) h
  rwa [hexByte_nibbles] at hbyte

/-- Bytes printed each behind a colon. -/
theorem spellsMac_flatten (bytes : List UInt8) :
    SpellsMac bytes (bytes.map fun b => ':' :: hexText b).flatten := by
  induction bytes with
  | nil => exact .done (by simp)
  | cons b bytes ih => exact spellsMac_hexText [':'] (by simp [isSeparator]) ih

theorem spellsMac_macDump (mac : EtherAddr) : SpellsMac (List.ofFn mac) (macDump mac) := by
  have htail : (List.ofFn fun i : Fin 5 => ':' :: hexText (mac i.succ)) =
      (List.ofFn fun i : Fin 5 => mac i.succ).map fun b => ':' :: hexText b := by
    rw [List.map_ofFn]
    rfl
  rw [List.ofFn_succ, macDump, htail]
  exact spellsMac_hexText [] (by simp) (spellsMac_flatten _)

/-! ## IPv4 addresses -/

/-- The C string in a buffer: the text up to the first zero byte. -/
def cString (s : Text) : Text := s.takeWhile fun c => c ≠ Char.ofNat 0

/-- The format `%u.%u.%u.%u`. -/
def dottedQuad : List Directive :=
  [.unsigned, .literal '.', .unsigned, .literal '.', .unsigned, .literal '.', .unsigned]

/-- `RTE_IPV4`. -/
def rteIpv4 (a b c d : UInt32) : UInt32 :=
  ((a &&& 0xff) <<< 24) ||| ((b &&& 0xff) <<< 16) ||| ((c &&& 0xff) <<< 8) ||| (d &&& 0xff)

/-- `parse_ipv4_be`. -/
def parseIpv4Be (s : Text) : Option UInt32 :=
  if s = [] ∨ s.length > 15 then none
  -- the size of `buf`
  else if s.length ≥ 16 then none
  else
    match sscanf dottedQuad (cString s) with
    | [a, b, c, d] =>
        if a > 255 ∨ b > 255 ∨ c > 255 ∨ d > 255 then none
        else some (cpuToBe32 (rteIpv4 a b c d))
    | _ => none

/-- `append_ipv4`: the text put out. -/
def appendIpv4 (beAddr : UInt32) : Text :=
  let host := beToCpu32 beAddr
  Nat.toDigits 10 ((host >>> 24) &&& 0xff).toNat ++ '.' ::
    (Nat.toDigits 10 ((host >>> 16) &&& 0xff).toNat ++ '.' ::
      (Nat.toDigits 10 ((host >>> 8) &&& 0xff).toNat ++ '.' ::
        Nat.toDigits 10 (host &&& 0xff).toNat))

/-- Four octets in decimal. -/
def dotted (o : Fin 4 → UInt8) : Text :=
  Nat.toDigits 10 (o 0).toNat ++ '.' :: (Nat.toDigits 10 (o 1).toNat ++ '.' ::
    (Nat.toDigits 10 (o 2).toNat ++ '.' :: Nat.toDigits 10 (o 3).toNat))

/-- The text starts with four numbers separated by dots, which are the octets `o`; a minus stands only
before a zero. -/
def SpellsIpv4 (o : Fin 4 → UInt8) (s : Text) : Prop :=
  ∃ vs, Scans dottedQuad vs s ∧ (∀ x ∈ vs, x.1 = true → x.2 = 0) ∧
    vs.map Prod.snd = List.ofFn fun i => (o i).toNat

/-! ### The octets of an address -/

theorem and_255_toNat (x : UInt32) : (x &&& 0xff).toNat = x.toNat % 256 := by
  rw [UInt32.toNat_and]
  exact Nat.and_two_pow_sub_one_eq_mod x.toNat 8

theorem shiftRight_and_255_toNat (x : UInt32) (k : Nat) (hk : k < 32) :
    ((x >>> UInt32.ofNat k) &&& 0xff).toNat = x.toNat / 2 ^ k % 256 := by
  rw [and_255_toNat, UInt32.toNat_shiftRight, UInt32.toNat_ofNat',
    Nat.mod_eq_of_lt (show k < 2 ^ 32 by omega), Nat.mod_eq_of_lt hk, Nat.shiftRight_eq_div_pow]

theorem octet_shiftLeft_toNat (x : UInt8) (k : Nat) (hk : k ≤ 24) :
    ((x.toUInt32 &&& 0xff) <<< UInt32.ofNat k).toNat = x.toNat * 2 ^ k := by
  have hx := x.toNat_lt
  have hpow : x.toNat * 2 ^ k < 2 ^ 32 :=
    calc x.toNat * 2 ^ k < 2 ^ 8 * 2 ^ k := Nat.mul_lt_mul_of_pos_right hx (Nat.two_pow_pos k)
      _ ≤ 2 ^ 8 * 2 ^ 24 := Nat.mul_le_mul_left _ (Nat.pow_le_pow_right (by omega) hk)
      _ = 2 ^ 32 := by norm_num
  rw [UInt32.toNat_shiftLeft, and_255_toNat, UInt8.toNat_toUInt32, UInt32.toNat_ofNat',
    Nat.mod_eq_of_lt (show k < 2 ^ 32 by omega), Nat.mod_eq_of_lt (show k < 32 by omega),
    Nat.mod_eq_of_lt hx, Nat.shiftLeft_eq, Nat.mod_eq_of_lt hpow]

/-- A number put below a multiple of a larger power of two. -/
theorem mul_two_pow_or {a b k : Nat} (h : b < 2 ^ k) : a * 2 ^ k ||| b = a * 2 ^ k + b := by
  rw [← Nat.shiftLeft_eq, Nat.shiftLeft_add_eq_or_of_lt h]

/-- Four octets, the first one on top, as `RTE_IPV4` puts them together. -/
theorem rteIpv4_toNat (o : Fin 4 → UInt8) :
    (rteIpv4 (o 0).toUInt32 (o 1).toUInt32 (o 2).toUInt32 (o 3).toUInt32).toNat =
      (o 0).toNat * 16777216 + (o 1).toNat * 65536 + (o 2).toNat * 256 + (o 3).toNat := by
  have h1 := (o 1).toNat_lt
  have h2 := (o 2).toNat_lt
  have h3 := (o 3).toNat_lt
  have e0 : (((o 0).toUInt32 &&& 0xff) <<< (24 : UInt32)).toNat = (o 0).toNat * 2 ^ 24 :=
    octet_shiftLeft_toNat (o 0) 24 (by omega)
  have e1 : (((o 1).toUInt32 &&& 0xff) <<< (16 : UInt32)).toNat = (o 1).toNat * 2 ^ 16 :=
    octet_shiftLeft_toNat (o 1) 16 (by omega)
  have e2 : (((o 2).toUInt32 &&& 0xff) <<< (8 : UInt32)).toNat = (o 2).toNat * 2 ^ 8 :=
    octet_shiftLeft_toNat (o 2) 8 (by omega)
  have e3 : ((o 3).toUInt32 &&& 0xff).toNat = (o 3).toNat := by
    rw [and_255_toNat, UInt8.toNat_toUInt32, Nat.mod_eq_of_lt h3]
  -- each octet falls below the ones before it
  have s1 : (o 0).toNat * 2 ^ 24 ||| (o 1).toNat * 2 ^ 16 =
      ((o 0).toNat * 256 + (o 1).toNat) * 2 ^ 16 := by
    rw [mul_two_pow_or (by omega)]
    omega
  have s2 : ((o 0).toNat * 256 + (o 1).toNat) * 2 ^ 16 ||| (o 2).toNat * 2 ^ 8 =
      (((o 0).toNat * 256 + (o 1).toNat) * 256 + (o 2).toNat) * 2 ^ 8 := by
    rw [mul_two_pow_or (by omega)]
    omega
  rw [rteIpv4, UInt32.toNat_or, UInt32.toNat_or, UInt32.toNat_or, e0, e1, e2, e3, s1, s2,
    mul_two_pow_or (by omega)]
  omega

/-- The bytes of a word come back in the other order. -/
theorem bswap32_octets {x : UInt32} {a b c d : Nat} (hb : b < 256) (hc : c < 256) (hd : d < 256)
    (hx : x.toNat = a * 16777216 + b * 65536 + c * 256 + d) :
    (bswap32 x).toNat = d * 16777216 + c * 65536 + b * 256 + a := by
  have e0 : x.toNat % 256 = d := by omega
  have e1 : x.toNat / 256 % 256 = c := by omega
  have e2 : x.toNat / 65536 % 256 = b := by omega
  have e3 : x.toNat / 16777216 = a := by omega
  rw [bswap32_toNat, e0, e1, e2, e3]

theorem ipv4From_toNat (o : Fin 4 → UInt8) :
    (Config.ipv4From o).toNat =
      (o 3).toNat * 16777216 + (o 2).toNat * 65536 + (o 1).toNat * 256 + (o 0).toNat := by
  have h0 := (o 0).toNat_lt
  have h1 := (o 1).toNat_lt
  have h2 := (o 2).toNat_lt
  have h3 := (o 3).toNat_lt
  rw [Config.ipv4From, ofLe32, UInt32.toNat_ofNat']
  omega

theorem cpuToBe32_rteIpv4 (o : Fin 4 → UInt8) :
    cpuToBe32 (rteIpv4 (o 0).toUInt32 (o 1).toUInt32 (o 2).toUInt32 (o 3).toUInt32) =
      Config.ipv4From o := by
  apply UInt32.toNat.inj
  rw [ipv4From_toNat]
  exact bswap32_octets (o 1).toNat_lt (o 2).toNat_lt (o 3).toNat_lt (rteIpv4_toNat o)

theorem appendIpv4_ipv4From (o : Fin 4 → UInt8) : appendIpv4 (Config.ipv4From o) = dotted o := by
  have h0 := (o 0).toNat_lt
  have h1 := (o 1).toNat_lt
  have h2 := (o 2).toNat_lt
  have h3 := (o 3).toNat_lt
  have hhost : (beToCpu32 (Config.ipv4From o)).toNat =
      (o 0).toNat * 16777216 + (o 1).toNat * 65536 + (o 2).toNat * 256 + (o 3).toNat :=
    bswap32_octets h2 h1 h0 (ipv4From_toNat o)
  simp only [appendIpv4]
  generalize beToCpu32 (Config.ipv4From o) = host at hhost ⊢
  have e0 : ((host >>> 24) &&& 0xff).toNat = (o 0).toNat :=
    (shiftRight_and_255_toNat host 24 (by omega)).trans (by omega)
  have e1 : ((host >>> 16) &&& 0xff).toNat = (o 1).toNat :=
    (shiftRight_and_255_toNat host 16 (by omega)).trans (by omega)
  have e2 : ((host >>> 8) &&& 0xff).toNat = (o 2).toNat :=
    (shiftRight_and_255_toNat host 8 (by omega)).trans (by omega)
  have e3 : (host &&& 0xff).toNat = (o 3).toNat := (and_255_toNat host).trans (by omega)
  rw [e0, e1, e2, e3, dotted]

/-! ### The accepted texts -/

theorem strtoul_octet {neg : Bool} (b : UInt8) (h : neg = true → b.toNat = 0) :
    strtoul neg b.toNat = b.toUInt32 := by
  have hb := b.toNat_lt
  apply UInt32.toNat.inj
  rw [strtoul_toNat (by omega), UInt8.toNat_toUInt32]
  cases neg with
  | false => rfl
  | true =>
      rw [if_pos rfl, h rfl]
      rfl

/-- On a number that a text of fifteen characters can hold beside the other directives of the format,
a stored value of at most 255 is the number itself, and a minus needs a zero. -/
theorem exists_octet_of_strtoul {neg : Bool} {v : Nat} (hv : v < 10 ^ 9)
    (h : ¬strtoul neg v > 255) : ∃ b : UInt8, v = b.toNat ∧ (neg = true → b.toNat = 0) := by
  have hval : (strtoul neg v).toNat = if neg then (2 ^ 32 - v) % 2 ^ 32 else v :=
    strtoul_toNat (by omega)
  have hle : (strtoul neg v).toNat ≤ 255 := by
    rw [gt_iff_lt, UInt32.lt_iff_toNat_lt] at h
    exact Nat.le_of_not_lt h
  have hsmall : v ≤ 255 ∧ (neg = true → v = 0) := by
    cases neg with
    | false => exact ⟨by simpa [hval] using hle, nofun⟩
    | true =>
        rw [if_pos rfl] at hval
        exact ⟨by omega, fun _ => by omega⟩
  have hb : (UInt8.ofNat v).toNat = v := by
    rw [UInt8.toNat_ofNat', Nat.mod_eq_of_lt (by omega)]
  exact ⟨UInt8.ofNat v, hb.symm, fun hneg => hb.trans (hsmall.2 hneg)⟩

theorem not_octet_gt (b : UInt8) : ¬b.toUInt32 > 255 := by
  have hb := b.toNat_lt
  rw [gt_iff_lt, UInt32.lt_iff_toNat_lt, UInt8.toNat_toUInt32]
  exact Nat.not_lt.mpr (Nat.le_of_lt_succ hb)

theorem length_cString_le (s : Text) : (cString s).length ≤ s.length :=
  (List.takeWhile_sublist _).length_le

/-- What an accepted text has passed. -/
theorem sscanf_of_parse {s : Text} {ip : UInt32} (h : parseIpv4Be s = some ip) :
    s.length ≤ 15 ∧ ∃ a b c d, sscanf dottedQuad (cString s) = [a, b, c, d] ∧
      (¬a > 255 ∧ ¬b > 255 ∧ ¬c > 255 ∧ ¬d > 255) ∧ cpuToBe32 (rteIpv4 a b c d) = ip := by
  unfold parseIpv4Be at h
  split at h
  · cases h
  · next hlen =>
      split at h
      · cases h
      · split at h
        · next a b c d hscan =>
            split at h
            · cases h
            · next hsmall =>
                simp only [not_or] at hlen hsmall
                exact ⟨Nat.le_of_not_lt hlen.2, a, b, c, d, hscan, hsmall, Option.some.inj h⟩
        · cases h

/-- Fifteen characters leave nine for a number. -/
theorem lt_of_scans_cString {s : Text} (hlen : s.length ≤ 15) {vs : List (Bool × Nat)}
    (h : Scans dottedQuad vs (cString s)) : ∀ x ∈ vs, x.2 < 10 ^ 9 := by
  intro x hx
  have hc := length_cString_le s
  refine (h.lt_pow x hx).trans_le (Nat.pow_le_pow_right (by omega) ?_)
  simp only [dottedQuad, List.length_cons, List.length_nil]
  omega

theorem spellsIpv4_of_parse {s : Text} {ip : UInt32} (h : parseIpv4Be s = some ip) :
    s.length ≤ 15 ∧ ∃ o, ip = Config.ipv4From o ∧ SpellsIpv4 o (cString s) := by
  obtain ⟨hlen, a, b, c, d, hscan, ⟨ha, hb, hc, hd⟩, rfl⟩ := sscanf_of_parse h
  obtain ⟨vs, hvs⟩ := scans_of_length_sscanf dottedQuad rfl (by rw [hscan]; rfl)
  rw [sscanf_eq_of_scans hvs] at hscan
  -- four numbers, one for each octet
  obtain ⟨⟨n0, v0⟩, ⟨n1, v1⟩, ⟨n2, v2⟩, ⟨n3, v3⟩, rfl⟩ : ∃ x0 x1 x2 x3, vs = [x0, x1, x2, x3] :=
    List.length_eq_four.mp (length_of_scans hvs)
  simp only [List.map_cons, List.map_nil, List.cons.injEq, and_true] at hscan
  obtain ⟨rfl, rfl, rfl, rfl⟩ := hscan
  have hbound := lt_of_scans_cString hlen hvs
  obtain ⟨b0, rfl, hn0⟩ := exists_octet_of_strtoul (hbound (n0, v0) (by simp)) ha
  obtain ⟨b1, rfl, hn1⟩ := exists_octet_of_strtoul (hbound (n1, v1) (by simp)) hb
  obtain ⟨b2, rfl, hn2⟩ := exists_octet_of_strtoul (hbound (n2, v2) (by simp)) hc
  obtain ⟨b3, rfl, hn3⟩ := exists_octet_of_strtoul (hbound (n3, v3) (by simp)) hd
  refine ⟨hlen, ![b0, b1, b2, b3], ?_, _, hvs, by simpa using ⟨hn0, hn1, hn2, hn3⟩, rfl⟩
  rw [strtoul_octet b0 hn0, strtoul_octet b1 hn1, strtoul_octet b2 hn2, strtoul_octet b3 hn3]
  exact cpuToBe32_rteIpv4 ![b0, b1, b2, b3]

theorem parse_of_spellsIpv4 {s : Text} {o : Fin 4 → UInt8} (hlen : s.length ≤ 15)
    (h : SpellsIpv4 o (cString s)) : parseIpv4Be s = some (Config.ipv4From o) := by
  obtain ⟨vs, hvs, hneg, hval⟩ := h
  have hne : s ≠ [] := by
    rintro rfl
    exact absurd hvs.length_le (by decide)
  obtain ⟨⟨n0, v0⟩, ⟨n1, v1⟩, ⟨n2, v2⟩, ⟨n3, v3⟩, rfl⟩ : ∃ x0 x1 x2 x3, vs = [x0, x1, x2, x3] :=
    List.length_eq_four.mp (length_of_scans hvs)
  simp only [List.map_cons, List.map_nil, List.ofFn_succ, List.ofFn_zero, List.cons.injEq,
    and_true] at hval
  obtain ⟨rfl, rfl, rfl, rfl⟩ := hval
  simp only [List.forall_mem_cons] at hneg
  obtain ⟨hn0, hn1, hn2, hn3, -⟩ := hneg
  have hscan : sscanf dottedQuad (cString s) =
      [(o 0).toUInt32, (o 1).toUInt32, (o 2).toUInt32, (o 3).toUInt32] := by
    rw [sscanf_eq_of_scans hvs]
    simp only [List.map_cons, List.map_nil]
    rw [strtoul_octet (o 0) hn0, strtoul_octet _ hn1, strtoul_octet _ hn2, strtoul_octet _ hn3]
    rfl
  have hshort : ¬(s = [] ∨ s.length > 15) := by
    rw [not_or]
    exact ⟨hne, by omega⟩
  have hoctets : ¬((o 0).toUInt32 > 255 ∨ (o 1).toUInt32 > 255 ∨ (o 2).toUInt32 > 255 ∨
      (o 3).toUInt32 > 255) := by
    simp only [not_or]
    exact ⟨not_octet_gt _, not_octet_gt _, not_octet_gt _, not_octet_gt _⟩
  rw [parseIpv4Be, if_neg hshort, if_neg (by omega), hscan]
  simp only [if_neg hoctets, cpuToBe32_rteIpv4]

/-! ### Printing and reading back -/

theorem numeral_toDigits (n : Nat) {rest : Text} (h : StopsAt Char.isDigit rest) :
    Numeral false n (Nat.toDigits 10 n ++ rest) rest :=
  ⟨⟨[], [], Nat.toDigits 10 n, rfl, by simp, .none, Nat.toDigits_ne_nil,
    fun _ => isDigit_of_mem_toDigits, Nat.ofDigitChars_ten_toDigits.symm⟩, h⟩

theorem length_toDigits_octet (b : UInt8) : (Nat.toDigits 10 b.toNat).length ≤ 3 := by
  have hb := b.toNat_lt
  exact (Nat.length_toDigits_le_iff (by omega) (by omega)).mpr (by omega)

/-- The characters of a dotted address. -/
theorem not_mem_dotted {o : Fin 4 → UInt8} {c : Char} (h : c.isDigit = false) (hdot : c ≠ '.') :
    c ∉ dotted o := by
  simp only [dotted, List.mem_append, List.mem_cons, not_or]
  exact ⟨not_mem_toDigits h, hdot, not_mem_toDigits h, hdot, not_mem_toDigits h, hdot,
    not_mem_toDigits h⟩

/-- Nothing of a dotted address is cut off as a C string. -/
theorem cString_dotted (o : Fin 4 → UInt8) : cString (dotted o) = dotted o := by
  refine List.takeWhile_eq_self_iff.mpr fun c hc => decide_eq_true ?_
  rintro rfl
  exact not_mem_dotted (by decide) (by decide) hc

theorem length_dotted_le (o : Fin 4 → UInt8) : (dotted o).length ≤ 15 := by
  have h0 := length_toDigits_octet (o 0)
  have h1 := length_toDigits_octet (o 1)
  have h2 := length_toDigits_octet (o 2)
  have h3 := length_toDigits_octet (o 3)
  simp only [dotted, List.length_append, List.length_cons]
  omega

theorem spellsIpv4_dotted (o : Fin 4 → UInt8) : SpellsIpv4 o (dotted o) := by
  have hdot (rest : Text) : StopsAt Char.isDigit ('.' :: rest) := stopsAt_cons rest (by decide)
  -- the last number ends where the text ends
  have hlast : Numeral false (o 3).toNat (Nat.toDigits 10 (o 3).toNat) [] := by
    simpa using numeral_toDigits (o 3).toNat (show StopsAt Char.isDigit [] by simp [StopsAt])
  refine ⟨[(false, (o 0).toNat), (false, (o 1).toNat), (false, (o 2).toNat), (false, (o 3).toNat)],
    ?_, by simp, rfl⟩
  exact .unsigned (numeral_toDigits _ (hdot _)) <| .literal '.' <|
    .unsigned (numeral_toDigits _ (hdot _)) <| .literal '.' <|
    .unsigned (numeral_toDigits _ (hdot _)) <| .literal '.' <| .unsigned hlast (.nil _)

/-! ## The two formats -/

/-- `parse_mac` accepts the texts of the grammar and no others, and what `mac_dump` prints is read
back. -/
theorem mac_text (mac : EtherAddr) :
    (∀ s, parseMac s = some mac ↔ SpellsMac (List.ofFn mac) s) ∧ parseMac (macDump mac) = some mac :=
  ⟨fun _ => parseMac_eq_some_iff, parseMac_eq_some_iff.mpr (spellsMac_macDump mac)⟩

example : parseMac "02-00 00:00:00:0a \n".toList = some ![2, 0, 0, 0, 0, 10] := by decide

/-- `parse_ipv4_be` accepts a text of at most fifteen characters that starts with four octets, and no
other: the values never wrap around. What `append_ipv4` prints is read back. -/
theorem ipv4_text (ip : UInt32) :
    (∀ s, parseIpv4Be s = some ip ↔
      s.length ≤ 15 ∧ ∃ o, ip = Config.ipv4From o ∧ SpellsIpv4 o (cString s)) ∧
    parseIpv4Be (appendIpv4 ip) = some ip := by
  refine ⟨fun s => ⟨spellsIpv4_of_parse, ?_⟩, ?_⟩
  · rintro ⟨hlen, o, rfl, ho⟩
    exact parse_of_spellsIpv4 hlen ho
  · have hip : ip = Config.ipv4From (le32 ip) := (ofLe32_le32 ip).symm
    rw [hip, appendIpv4_ipv4From]
    refine parse_of_spellsIpv4 (length_dotted_le _) ?_
    rw [cString_dotted]
    exact spellsIpv4_dotted _

-- a sign, white space and what follows the fourth number are accepted
example : parseIpv4Be "+1. 2.3.4x".toList = some (Config.ipv4From ![1, 2, 3, 4]) := by decide

end VioletGateway.Util
