import VioletGateway.Control.Convergence
import VioletGateway.Util.AddressText

/-!
# The command line of the control tool

Model of `main` and `parseUpstreams` of `tools/vgwcp/main.go` from the values of the flags on, with
the functions of the Go library that they call: `net.SplitHostPort`, `net.ParseIP`, `IP.To4` and
`strconv.ParseUint`. A refusal names its cause in place of the message; opening and mapping the
segment is taken to succeed.

An endpoint may be written with a dotted address or with an IPv4-mapped IPv6 address in brackets. Both
are accepted (`parseUpstream_of_writes`), and a command that is accepted takes effect in the gateway
whatever happened before (`Shm.Origin.command_takes_effect`).
-/

set_option autoImplicit false

namespace VioletGateway

open Support Util

namespace Vgwcp

/-! ## The library -/

/-- The text before and behind the last `c`. -/
def splitLast (c : Char) : Text → Option (Text × Text)
  | [] => none
  | a :: s =>
      match splitLast c s with
      | some (before, behind) => some (a :: before, behind)
      | none => if a = c then some ([], s) else none

/-- `net.SplitHostPort`. -/
def splitHostPort (s : Text) : Option (Text × Text) :=
  match splitLast ':' s with
  | none => none
  | some (before, port) =>
      if s.head? = some '[' then
        -- the first bracket that closes stands just before the last colon
        let close := s.idxOf ']'
        if close + 1 ≠ before.length then none
        else if '[' ∈ s.drop 1 ∨ ']' ∈ s.drop (close + 1) then none
        else some ((s.take close).drop 1, port)
      else if ':' ∈ before then none
      else if '[' ∈ s ∨ ']' ∈ s then none
      else some (before, port)

/-- The loop of `netip.parseIPv4Fields`: the fields found, the value of the present one and its number
of digits. A dot without a digit before it is one at the start or behind another dot. -/
def parseIPv4Fields : Text → List UInt8 → Nat → Nat → Option (List UInt8)
  | [], fields, val, _ => if fields.length < 3 then none else some (fields ++ [UInt8.ofNat val])
  | c :: s, fields, val, digLen =>
      if c.isDigit then
        -- leading zeros are not allowed
        if digLen = 1 ∧ val = 0 then none
        else if val * 10 + (c.toNat - '0'.toNat) > 255 then none
        else parseIPv4Fields s fields (val * 10 + (c.toNat - '0'.toNat)) (digLen + 1)
      else if c = '.' then
        if digLen = 0 ∨ s = [] then none
        else if fields.length = 3 then none
        else parseIPv4Fields s (fields ++ [UInt8.ofNat val]) 0 0
      else none

def isHex (c : Char) : Bool := (hexNibble c).isSome

/-- The value of a group of hexadecimal digits. -/
def hexValue (digits : Text) : Nat :=
  digits.foldl (fun acc c => acc * 16 + (hexNibble c).getD 0) 0

/-- The loop of `netip.parseIPv6` with room for `n` groups: the bytes found, where the ellipsis stands
among them, and the text left. -/
def parseIPv6Loop : Nat → Text → List UInt8 → Option Nat → Option (List UInt8 × Option Nat × Text)
  | 0, s, ip, ellipsis => some (ip, ellipsis, s)
  | n + 1, s, ip, ellipsis =>
      let digits := s.takeWhile isHex
      let chunk := [UInt8.ofNat (hexValue digits / 256), UInt8.ofNat (hexValue digits % 256)]
      if digits = [] ∨ digits.length > 4 then none
      else
        match s.dropWhile isHex with
        | [] => some (ip ++ chunk, ellipsis, [])
        | c :: rest =>
            if c = '.' then
              -- the last four bytes may be written as an IPv4 address
              if ellipsis = none ∧ ip.length ≠ 12 then none
              else if ip.length + 4 > 16 then none
              else (parseIPv4Fields s [] 0 0).map fun fields => (ip ++ fields, ellipsis, [])
            else if c ≠ ':' then none
            else
              match rest with
              | [] => none
              | c' :: rest' =>
                  if c' = ':' then
                    if ellipsis.isSome then none
                    else if rest' = [] then some (ip ++ chunk, some (ip.length + 2), [])
                    else parseIPv6Loop n rest' (ip ++ chunk) (some (ip.length + 2))
                  else parseIPv6Loop n (c' :: rest') (ip ++ chunk) ellipsis

/-- The end of `netip.parseIPv6`: the whole text is used and the ellipsis is filled with zeros. -/
def expandEllipsis : List UInt8 × Option Nat × Text → Option (List UInt8)
  | (ip, ellipsis, s) =>
      if s ≠ [] then none
      else if ip.length < 16 then
        ellipsis.map fun e => ip.take e ++ List.replicate (16 - ip.length) 0 ++ ip.drop e
      else if ellipsis.isSome then none
      else some ip

/-- `netip.parseIPv6` without a zone. -/
def parseIPv6 (s : Text) : Option (List UInt8) :=
  match s with
  | ':' :: ':' :: rest =>
      if rest = [] then some (List.replicate 16 0)
      else (parseIPv6Loop 8 rest [] (some 0)).bind expandEllipsis
  | _ => (parseIPv6Loop 8 s [] none).bind expandEllipsis

/-- The sixteen bytes of an IPv4 address. -/
def mapped (fields : List UInt8) : List UInt8 := List.replicate 10 0 ++ [0xff, 0xff] ++ fields

/-- `net.ParseIP`: the first dot, colon or percent sign decides. A zone is refused. -/
def parseIP (s : Text) : Option (List UInt8) :=
  match s.find? fun c => c = '.' ∨ c = ':' ∨ c = '%' with
  | some '.' => (parseIPv4Fields s [] 0 0).map mapped
  | some ':' => if '%' ∈ s then none else parseIPv6 s
  | _ => none

/-- `IP.To4`. -/
def to4 (ip : List UInt8) : Option (Fin 4 → UInt8) :=
  if ip.take 12 = List.replicate 10 0 ++ [0xff, 0xff] then some fun i => (ip.drop 12).getD i 0
  else none

/-- `strconv.ParseUint` with base 10 and 16 bits. -/
def parseUint16 (s : Text) : Option UInt16 :=
  if s = [] ∨ s.all Char.isDigit = false then none
  else if Nat.ofDigitChars 10 s 0 > 65535 then none
  else some (UInt16.ofNat (Nat.ofDigitChars 10 s 0))

/-! ## The tool -/

/-- Why an upstream is refused, with its text. -/
inductive UpstreamError
  | badUpstream (s : Text)
  | badIp (s : Text)
  | needIpv4 (s : Text)
  | badPort (s : Text)
deriving DecidableEq

/-- The body of the loop of `parseUpstreams`. -/
def parseUpstream (s : Text) : Except UpstreamError ((Fin 4 → UInt8) × UInt16) :=
  match splitHostPort s with
  | none => .error (.badUpstream s)
  | some (host, portStr) =>
      match parseIP host with
      | none => .error (.badIp s)
      | some ip =>
          match to4 ip with
          | none => .error (.needIpv4 s)
          | some ip4 =>
              match parseUint16 portStr with
              | none => .error (.badPort s)
              | some port => .ok (ip4, port)

/-- Why `main` exits with status 2. -/
inductive Refusal
  | usage
  | unknownPolicy (policyStr : Text)
  | upstream (e : UpstreamError)
  | tooMany
deriving DecidableEq

/-- The names of the policies. -/
def policyName : BalancePolicy → Text
  | .mod => "mod".toList
  | .rr => "rr".toList

/-- The policy that `main` takes from its flag, in any case of the letters. -/
def parsePolicy (policyStr : Text) : Option BalancePolicy :=
  if policyStr.map Char.toLower = policyName .mod then some .mod
  else if policyStr.map Char.toLower = policyName .rr then some .rr
  else none

/-- `main` up to the call of `publish`: the call that it makes. -/
def command (policyStr : Text) (ups : List Text) : Except Refusal Request :=
  if ups = [] then .error .usage
  else
    match parsePolicy policyStr with
    | none => .error (.unknownPolicy policyStr)
    | some policy =>
        match ups.mapM parseUpstream with
        | .error e => .error (.upstream e)
        | .ok eps => if h : eps.length ≤ Shm.maxEp then .ok (.vgwcp policy eps h) else .error .tooMany

/-! ## How an endpoint is written -/

/-- The text names the endpoint, by a dotted or by an IPv4-mapped IPv6 address. -/
inductive Writes (up : (Fin 4 → UInt8) × UInt16) : Text → Prop
  | dotted : Writes up (dotted up.1 ++ ':' :: Nat.toDigits 10 up.2.toNat)
  | mapped :
      Writes up (('[' :: ("::ffff:".toList ++ dotted up.1)) ++ ']' :: ':' ::
        Nat.toDigits 10 up.2.toNat)

/-! ### The IPv4 address -/

theorem parseIPv4Fields_digit {d val digLen : Nat} (hd : d < 10) (hval : val * 10 + d ≤ 255)
    (hlead : ¬(digLen = 1 ∧ val = 0)) (rest : Text) (fields : List UInt8) :
    parseIPv4Fields (Nat.digitChar d :: rest) fields val digLen =
      parseIPv4Fields rest fields (val * 10 + d) (digLen + 1) := by
  have hdigit : (Nat.digitChar d).isDigit = true := by
    rw [Nat.isDigit_digitChar]
    exact decide_eq_true hd
  have hvalue : (Nat.digitChar d).toNat - '0'.toNat = d := Nat.toNat_digitChar_sub_48_of_lt_ten hd
  rw [parseIPv4Fields, if_pos hdigit, if_neg hlead, hvalue, if_neg (by omega)]

/-- The digits of a number are read to their end. -/
theorem parseIPv4Fields_toDigits {n : Nat} (hn : n ≤ 255) (rest : Text) (fields : List UInt8) :
    parseIPv4Fields (Nat.toDigits 10 n ++ rest) fields 0 0 =
      parseIPv4Fields rest fields n (Nat.toDigits 10 n).length := by
  induction n using Nat.strong_induction_on generalizing rest with
  | _ n ih =>
      by_cases hsmall : n < 10
      · rw [Nat.toDigits_of_lt_base hsmall]
        simpa using parseIPv4Fields_digit hsmall (show 0 * 10 + n ≤ 255 by omega) (by omega) rest fields
      · -- the last digit comes behind those of a number that is not zero
        have hdiv : n / 10 * 10 + n % 10 = n := Nat.div_add_mod' n 10
        rw [Nat.toDigits_of_base_le (by omega) (Nat.le_of_not_lt hsmall), List.append_assoc,
          ih (n / 10) (by omega) (by omega), List.singleton_append,
          parseIPv4Fields_digit (Nat.mod_lt n (by omega)) (by omega) (by omega), hdiv,
          List.length_append, List.length_singleton]

theorem parseIPv4Fields_dot {val digLen : Nat} {rest : Text} {fields : List UInt8}
    (hdig : digLen ≠ 0) (hrest : rest ≠ []) (hfew : fields.length ≠ 3) :
    parseIPv4Fields ('.' :: rest) fields val digLen =
      parseIPv4Fields rest (fields ++ [UInt8.ofNat val]) 0 0 := by
  have hdot : ¬('.' : Char).isDigit = true := by decide
  rw [parseIPv4Fields, if_neg hdot, if_pos rfl, if_neg (not_or.mpr ⟨hdig, hrest⟩), if_neg hfew]

/-- One octet and the dot behind it. -/
theorem parseIPv4Fields_octet (b : UInt8) {rest : Text} {fields : List UInt8} (hrest : rest ≠ [])
    (hfew : fields.length ≠ 3) :
    parseIPv4Fields (Nat.toDigits 10 b.toNat ++ '.' :: rest) fields 0 0 =
      parseIPv4Fields rest (fields ++ [b]) 0 0 := by
  have hlen : (Nat.toDigits 10 b.toNat).length ≠ 0 := Nat.length_toDigits_pos.ne'
  rw [parseIPv4Fields_toDigits (Nat.le_of_lt_succ b.toNat_lt), parseIPv4Fields_dot hlen hrest hfew,
    UInt8.ofNat_toNat]

theorem parseIPv4Fields_dotted (o : Fin 4 → UInt8) :
    parseIPv4Fields (dotted o) [] 0 0 = some [o 0, o 1, o 2, o 3] := by
  have hlast : parseIPv4Fields (Nat.toDigits 10 (o 3).toNat) [o 0, o 1, o 2] 0 0 =
      some [o 0, o 1, o 2, o 3] := by
    have h := parseIPv4Fields_toDigits (Nat.le_of_lt_succ (o 3).toNat_lt) [] [o 0, o 1, o 2]
    rw [List.append_nil] at h
    rw [h, parseIPv4Fields, if_neg (by simp), UInt8.ofNat_toNat]
    rfl
  rw [dotted, parseIPv4Fields_octet (o 0) (by simp) (by simp),
    parseIPv4Fields_octet (o 1) (by simp) (by simp),
    parseIPv4Fields_octet (o 2) Nat.toDigits_ne_nil (by simp)]
  exact hlast

theorem parseIP_dotted (o : Fin 4 → UInt8) :
    parseIP (dotted o) = some (mapped [o 0, o 1, o 2, o 3]) := by
  -- no digit decides the kind of the address, so the first dot does
  have hfind : (dotted o).find? (fun c => decide (c = '.' ∨ c = ':' ∨ c = '%')) = some '.' := by
    rw [dotted, List.find?_append, List.find?_eq_none.mpr, List.find?_cons]
    · rfl
    · intro c hc
      have hd := isDigit_of_mem_toDigits hc
      simp only [decide_eq_true_eq]
      rintro (rfl | rfl | rfl) <;> revert hd <;> decide
  rw [parseIP, hfind]
  simp only [parseIPv4Fields_dotted, Option.map_some]

theorem to4_mapped (o : Fin 4 → UInt8) : to4 (mapped [o 0, o 1, o 2, o 3]) = some o := by
  have htake : (mapped [o 0, o 1, o 2, o 3]).take 12 = List.replicate 10 0 ++ [0xff, 0xff] := rfl
  rw [to4, if_pos htake]
  congr 1
  funext i
  fin_cases i <;> rfl

/-! ### The IPv6 address -/

theorem isHex_of_isDigit {c : Char} (h : c.isDigit = true) : isHex c = true := by
  simp only [Char.isDigit, Bool.and_eq_true, decide_eq_true_eq] at h
  have hrange : '0' ≤ c ∧ c ≤ '9' := h
  rw [isHex, hexNibble, if_pos hrange]
  rfl

/-- An IPv4 address at the end of an IPv6 address with an ellipsis. -/
theorem parseIPv6Loop_dotted (n e : Nat) {ip : List UInt8} (hip : ip.length + 4 ≤ 16)
    (o : Fin 4 → UInt8) :
    parseIPv6Loop (n + 1) (dotted o) ip (some e) = some (ip ++ [o 0, o 1, o 2, o 3], some e, []) := by
  have hhex : ∀ c ∈ Nat.toDigits 10 (o 0).toNat, isHex c = true :=
    fun c hc => isHex_of_isDigit (isDigit_of_mem_toDigits hc)
  have hdot (rest : Text) : StopsAt isHex ('.' :: rest) := stopsAt_cons rest (by decide)
  have htake : (dotted o).takeWhile isHex = Nat.toDigits 10 (o 0).toNat :=
    takeWhile_append_of_stopsAt hhex (hdot _)
  have hdrop : (dotted o).dropWhile isHex = '.' :: (Nat.toDigits 10 (o 1).toNat ++ '.' ::
      (Nat.toDigits 10 (o 2).toNat ++ '.' :: Nat.toDigits 10 (o 3).toNat)) :=
    dropWhile_append_of_stopsAt hhex (hdot _)
  have hlen := length_toDigits_octet (o 0)
  have hgroup : ¬(Nat.toDigits 10 (o 0).toNat = [] ∨ (Nat.toDigits 10 (o 0).toNat).length > 4) := by
    rw [not_or]
    exact ⟨Nat.toDigits_ne_nil, by omega⟩
  simp only [parseIPv6Loop, htake, hdrop, if_neg hgroup, if_true, parseIPv4Fields_dotted]
  rw [if_neg (by simp), if_neg (by omega), Option.map_some]

theorem parseIPv6_mapped (o : Fin 4 → UInt8) :
    parseIPv6 ("::ffff:".toList ++ dotted o) = some (mapped [o 0, o 1, o 2, o 3]) := by
  have hhex : ∀ c ∈ "ffff".toList, isHex c = true := by
    intro c hc
    obtain rfl : c = 'f' := List.eq_of_mem_replicate (show c ∈ List.replicate 4 'f' from hc)
    decide
  have hcolon : StopsAt isHex (':' :: dotted o) := stopsAt_cons _ (by decide)
  have htake : ("ffff".toList ++ ':' :: dotted o).takeWhile isHex = "ffff".toList :=
    takeWhile_append_of_stopsAt hhex hcolon
  have hdrop : ("ffff".toList ++ ':' :: dotted o).dropWhile isHex = ':' :: dotted o :=
    dropWhile_append_of_stopsAt hhex hcolon
  obtain ⟨c, rest, hdotted⟩ : ∃ c rest, dotted o = c :: rest :=
    List.exists_cons_of_ne_nil (by simp [dotted])
  have hc : c ≠ ':' := by
    rintro rfl
    exact not_mem_dotted (o := o) (c := ':') (by decide) (by decide) (hdotted ▸ List.mem_cons_self)
  have hloop : parseIPv6Loop 8 ("ffff".toList ++ ':' :: dotted o) [] (some 0) =
      parseIPv6Loop 7 (dotted o) [0xff, 0xff] (some 0) := by
    have hvalue : hexValue "ffff".toList = 65535 := by decide
    rw [parseIPv6Loop]
    simp only [htake, hdrop]
    rw [if_neg (by decide), if_neg (by decide), if_neg (by decide), hdotted, hvalue]
    simp only [if_neg hc]
    rfl
  show ((parseIPv6Loop 8 ("ffff".toList ++ ':' :: dotted o) [] (some 0)).bind expandEllipsis) = _
  rw [hloop, parseIPv6Loop_dotted 6 0 (by simp)]
  rfl

theorem parseIP_mapped (o : Fin 4 → UInt8) :
    parseIP ("::ffff:".toList ++ dotted o) = some (mapped [o 0, o 1, o 2, o 3]) := by
  have hzone : '%' ∉ "::ffff:".toList ++ dotted o := by
    rw [List.mem_append, not_or]
    exact ⟨by decide, not_mem_dotted (by decide) (by decide)⟩
  have hfind : ("::ffff:".toList ++ dotted o).find?
      (fun c => decide (c = '.' ∨ c = ':' ∨ c = '%')) = some ':' := rfl
  rw [parseIP, hfind]
  simp only [if_neg hzone, parseIPv6_mapped]

/-! ### Host and port -/

theorem splitLast_of_not_mem {c : Char} {s : Text} (h : c ∉ s) : splitLast c s = none := by
  induction s with
  | nil => rfl
  | cons a s ih =>
      rw [List.mem_cons, not_or] at h
      simp only [splitLast, ih h.2, if_neg (Ne.symm h.1)]

theorem splitLast_append {c : Char} (before : Text) {behind : Text} (h : c ∉ behind) :
    splitLast c (before ++ c :: behind) = some (before, behind) := by
  induction before with
  | nil => simp only [List.nil_append, splitLast, splitLast_of_not_mem h, if_true]
  | cons a before ih => simp only [List.cons_append, splitLast, ih]

theorem splitHostPort_dotted (o : Fin 4 → UInt8) (n : Nat) :
    splitHostPort (dotted o ++ ':' :: Nat.toDigits 10 n) = some (dotted o, Nat.toDigits 10 n) := by
  have hbracket {c : Char} (hd : c.isDigit = false) (hdot : c ≠ '.') (hcolon : c ≠ ':') :
      c ∉ dotted o ++ ':' :: Nat.toDigits 10 n := by
    rw [List.mem_append, List.mem_cons, not_or, not_or]
    exact ⟨not_mem_dotted hd hdot, hcolon, not_mem_toDigits hd⟩
  have hopen : '[' ∉ dotted o ++ ':' :: Nat.toDigits 10 n :=
    hbracket (by decide) (by decide) (by decide)
  have hclose : ']' ∉ dotted o ++ ':' :: Nat.toDigits 10 n :=
    hbracket (by decide) (by decide) (by decide)
  have hhead : (dotted o ++ ':' :: Nat.toDigits 10 n).head? ≠ some '[' :=
    fun h => hopen (List.mem_of_head? h)
  have hcolon : ':' ∉ dotted o := not_mem_dotted (by decide) (by decide)
  simp only [splitHostPort, splitLast_append (dotted o) (not_mem_toDigits (n := n) (c := ':') rfl),
    if_neg hhead, if_neg hcolon, if_neg (not_or.mpr ⟨hopen, hclose⟩)]

theorem splitHostPort_mapped {host : Text} (hopen : '[' ∉ host) (hclose : ']' ∉ host) (n : Nat) :
    splitHostPort (('[' :: host) ++ ']' :: ':' :: Nat.toDigits 10 n) =
      some (host, Nat.toDigits 10 n) := by
  have hlast : splitLast ':' (('[' :: host) ++ ']' :: ':' :: Nat.toDigits 10 n) =
      some (('[' :: host) ++ [']'], Nat.toDigits 10 n) := by
    have h := splitLast_append (('[' :: host) ++ [']']) (not_mem_toDigits (n := n) (c := ':') rfl)
    rwa [List.append_assoc] at h
  have hidx : (('[' :: host) ++ ']' :: ':' :: Nat.toDigits 10 n).idxOf ']' = host.length + 1 := by
    rw [List.idxOf_append_of_notMem (by simpa using hclose)]
    simp
  have hdrop : (('[' :: host) ++ ']' :: ':' :: Nat.toDigits 10 n).drop (host.length + 1 + 1) =
      ':' :: Nat.toDigits 10 n := by
    simp [List.drop_append]
  have htake : (('[' :: host) ++ ']' :: ':' :: Nat.toDigits 10 n).take (host.length + 1) =
      '[' :: host := by
    simp
  have hopen' : '[' ∉ (('[' :: host) ++ ']' :: ':' :: Nat.toDigits 10 n).drop 1 := by
    simp [hopen, not_mem_toDigits (n := n) (c := '[') rfl]
  have hclose' : ']' ∉ ':' :: Nat.toDigits 10 n := by
    simp [not_mem_toDigits (n := n) (c := ']') rfl]
  have hhead : (('[' :: host) ++ ']' :: ':' :: Nat.toDigits 10 n).head? = some '[' := rfl
  simp only [splitHostPort, hlast, hidx, hdrop, htake]
  rw [if_pos hhead, if_neg (by simp), if_neg (not_or.mpr ⟨hopen', hclose'⟩)]
  rfl

theorem parseUint16_toDigits (port : UInt16) :
    parseUint16 (Nat.toDigits 10 port.toNat) = some port := by
  have hport := port.toNat_lt
  have hdigits : ¬(Nat.toDigits 10 port.toNat = [] ∨
      (Nat.toDigits 10 port.toNat).all Char.isDigit = false) := by
    rw [not_or, Bool.not_eq_false, List.all_eq_true]
    exact ⟨Nat.toDigits_ne_nil, fun c => isDigit_of_mem_toDigits⟩
  rw [parseUint16, if_neg hdigits, Nat.ofDigitChars_ten_toDigits, if_neg (by omega), UInt16.ofNat_toNat]

/-! ## Accepted commands -/

theorem parseUpstream_of_writes {up : (Fin 4 → UInt8) × UInt16} {s : Text} (h : Writes up s) :
    parseUpstream s = .ok up := by
  cases h with
  | dotted =>
      simp only [parseUpstream, splitHostPort_dotted, parseIP_dotted, to4_mapped, parseUint16_toDigits]
  | mapped =>
      have hbracket {c : Char} (hd : c.isDigit = false) (hdot : c ≠ '.')
          (hlead : c ∉ "::ffff:".toList) : c ∉ "::ffff:".toList ++ dotted up.1 := by
        rw [List.mem_append, not_or]
        exact ⟨hlead, not_mem_dotted hd hdot⟩
      have hsplit := splitHostPort_mapped (hbracket (c := '[') (by decide) (by decide) (by decide))
        (hbracket (c := ']') (by decide) (by decide) (by decide)) up.2.toNat
      simp only [parseUpstream, hsplit, parseIP_mapped, to4_mapped, parseUint16_toDigits]

/-- A list of upstreams is accepted when each one is. -/
theorem mapM_parseUpstream {ups : List ((Fin 4 → UInt8) × UInt16)} {texts : List Text}
    (h : List.Forall₂ Writes ups texts) : texts.mapM parseUpstream = .ok ups := by
  induction h with
  | nil => rfl
  | cons hs hrest ih =>
      rw [List.mapM_cons, parseUpstream_of_writes hs, ih]
      rfl

theorem parsePolicy_of_name {policyStr : Text} {policy : BalancePolicy}
    (h : policyStr.map Char.toLower = policyName policy) : parsePolicy policyStr = some policy := by
  rw [parsePolicy, h]
  cases policy with
  | mod => rfl
  | rr => rfl

theorem command_of_writes {policyStr : Text} {policy : BalancePolicy}
    (hpolicy : policyStr.map Char.toLower = policyName policy)
    {ups : List ((Fin 4 → UInt8) × UInt16)} {texts : List Text} (hne : ups ≠ [])
    (hups : ups.length ≤ Shm.maxEp) (hwrites : List.Forall₂ Writes ups texts) :
    command policyStr texts = .ok (.vgwcp policy ups hups) := by
  have htexts : texts ≠ [] := by
    rintro rfl
    exact hne (List.forall₂_nil_right_iff.mp hwrites)
  simp only [command, if_neg htexts, parsePolicy_of_name hpolicy, mapM_parseUpstream hwrites,
    dif_pos hups]

end Vgwcp

namespace Shm

namespace Control

/-! ## A publish among polls -/

/-- The publish of `u` is under way, or it is the last one that was completed. -/
def LastIs (published : List CpUpdate) (u : CpUpdate) (s : Control) : Prop :=
  (s.published = published ∧ ∃ done rest, s.pub = some ⟨u, done, rest⟩) ∨
    (s.published = published ++ [u] ∧ s.pub = none)

variable {published : List CpUpdate} {u : CpUpdate} {s : Control}

theorem LastIs.resume (h : s.LastIs published u) (q : Polling) (rest : Loads Found) :
    (s.resume q rest).LastIs published u := by
  cases rest with
  | done found =>
      cases found with
      | none => exact h
      | some found => exact h
  | load off n k => exact h

theorem LastIs.step (h : s.LastIs published u) {e : Event} (he : ∀ r, e ≠ .publish r) :
    (s.step e).LastIs published u := by
  cases e with
  | publish r => exact absurd rfl (he r)
  | store =>
      rcases h with ⟨hdone, done, rest, hpub⟩ | ⟨hlast, hpub⟩
      · cases rest with
        | nil =>
            have hstep : s.step .store = s := by simp only [Control.step, hpub]
            rw [hstep]
            exact .inl ⟨hdone, done, [], hpub⟩
        | cons x rest =>
            cases rest with
            | nil =>
                refine .inr ?_
                simp only [Control.step, hpub, hdone, and_self]
            | cons y rest =>
                refine .inl ⟨?_, done ++ [x], y :: rest, ?_⟩
                · simp only [Control.step, hpub, hdone]
                · simp only [Control.step, hpub]
      · have hstep : s.step .store = s := by simp only [Control.step, hpub]
        rw [hstep]
        exact .inr ⟨hlast, hpub⟩
  | poll =>
      cases hpoll : s.poll with
      | some q =>
          have hstep : s.step .poll = s := by simp only [Control.step, hpoll]
          rwa [hstep]
      | none =>
          simp only [Control.step, hpoll]
          exact h
  | load =>
      cases hpoll : s.poll with
      | none =>
          have hstep : s.step .load = s := by simp only [Control.step, hpoll]
          rwa [hstep]
      | some q =>
          cases hrest : q.rest with
          | done found =>
              have hstep : s.step .load = s := by simp only [Control.step, hpoll, hrest]
              rwa [hstep]
          | load off n k =>
              simp only [Control.step, hpoll, hrest]
              exact h.resume _ _

theorem LastIs.run {es : List Event} (hes : ∀ e ∈ es, ∀ r, e ≠ .publish r)
    (h : s.LastIs published u) : (Support.run Control.step s es).LastIs published u := by
  induction es generalizing s with
  | nil => exact h
  | cons e es ih =>
      rw [run_cons]
      exact ih (fun e' he' => hes e' (List.mem_cons_of_mem e he')) (h.step (hes e List.mem_cons_self))

theorem lastIs_publish (hpub : s.pub = none) {r : Request} (hr : r.Possible s.mem) :
    (s.step (.publish r)).LastIs s.published r.config := by
  have hstep : s.step (.publish r) = { s with pub := some ⟨r.config, [], r.publish.runOn s.mem⟩ } := by
    simp only [Control.step, hpub, if_pos hr]
  rw [hstep]
  exact .inl ⟨rfl, [], _, rfl⟩

end Control

/-- A publish of the tool takes effect, whatever happened before it and however its stores and the
loads of polls are interleaved: once it has been completed, an undisturbed poll leaves the table with
its configuration. -/
theorem Origin.converged_of_vgwcp (o : Origin) (es es' : List Event) {policy : BalancePolicy}
    {ups : List ((Fin 4 → UInt8) × UInt16)} (hups : ups.length ≤ maxEp)
    (hidle : (o.after es).pub = none) (hes' : ∀ e ∈ es', ∀ r, e ≠ .publish r)
    (hpub : (o.after (es ++ .publish (.vgwcp policy ups hups) :: es')).pub = none)
    (hpoll : (o.after (es ++ .publish (.vgwcp policy ups hups) :: es')).poll = none)
    (hfew : ∀ a, (o.after (es ++ .publish (.vgwcp policy ups hups) :: es')).log.head? = some a →
      (o.after (es ++ .publish (.vgwcp policy ups hups) :: es')).published.length - a.seenAt <
        4294967295) :
    (o.after (es ++ .publish (.vgwcp policy ups hups) :: es')).pollOnce.Converged
      (Vgwcp.requested policy ups) := by
  have hlast : (o.after (es ++ .publish (.vgwcp policy ups hups) :: es')).LastIs
      (o.after es).published (Vgwcp.requested policy ups) := by
    rw [o.after_append, run_cons]
    exact (Control.lastIs_publish (r := .vgwcp policy ups hups) hidle trivial).run hes'
  rcases hlast with ⟨-, done, rest, hsome⟩ | ⟨hpublished, -⟩
  · rw [hpub] at hsome
    cases hsome
  · obtain ⟨m, h⟩ := o.inv_after (es ++ .publish (.vgwcp policy ups hups) :: es')
    refine h.converged hpub hpoll ?_ hfew
    rw [hpublished, List.getLast?_concat]

/-- From the command line to the table of the gateway. A command that names a policy, in any case of
the letters, and between one and 64 endpoints, each by a dotted or by an IPv4-mapped address, is
accepted. In every run in which it is then carried out while nobody else publishes, once it is done and
no poll is under way, and fewer than `2 ^ 32 - 1` publishes have been completed since the last
successful poll loaded the version, one undisturbed poll leaves the table with exactly this policy and
these endpoints, in their order. -/
theorem Origin.command_takes_effect (o : Origin) (policyStr : Text) (policy : BalancePolicy)
    (hpolicy : policyStr.map Char.toLower = Vgwcp.policyName policy)
    {ups : List ((Fin 4 → UInt8) × UInt16)} {texts : List Text} (hne : ups ≠ [])
    (hups : ups.length ≤ maxEp) (hwrites : List.Forall₂ Vgwcp.Writes ups texts) :
    ∃ r, Vgwcp.command policyStr texts = .ok r ∧
      ∀ es es' : List Event, (o.after es).pub = none → (∀ e ∈ es', ∀ r', e ≠ .publish r') →
        (o.after (es ++ .publish r :: es')).pub = none →
        (o.after (es ++ .publish r :: es')).poll = none →
        (∀ a, (o.after (es ++ .publish r :: es')).log.head? = some a →
          (o.after (es ++ .publish r :: es')).published.length - a.seenAt < 2 ^ 32 - 1) →
        (o.after (es ++ .publish r :: es')).pollOnce.table.policy = policy ∧
        (o.after (es ++ .publish r :: es')).pollOnce.table.nodes = ups.map Vgwcp.endpointOf := by
  refine ⟨.vgwcp policy ups hups, Vgwcp.command_of_writes hpolicy hne hups hwrites, ?_⟩
  intro es es' hidle hes' hpub hpoll hfew
  have hconv := o.converged_of_vgwcp es es' hups hidle hes' hpub hpoll hfew
  exact ⟨hconv.policy_eq, hconv.nodes_eq⟩

/-- Two endpoints of the lab. -/
def labUps : List ((Fin 4 → UInt8) × UInt16) := [(![10, 0, 0, 2], 53), (![10, 0, 0, 3], 5353)]

theorem labUps_length : labUps.length ≤ maxEp := by decide

theorem labUps_command : Vgwcp.command "RR".toList
    ["10.0.0.2:53".toList, "[::ffff:10.0.0.3]:5353".toList] = .ok (.vgwcp .rr labUps labUps_length) :=
  Vgwcp.command_of_writes (by decide) (by simp [labUps]) labUps_length
    (.cons .dotted (.cons .mapped .nil))

/-- One command with both ways to write an address. -/
theorem command_takes_effect_two :
    ∃ r, Vgwcp.command "RR".toList ["10.0.0.2:53".toList, "[::ffff:10.0.0.3]:5353".toList] = .ok r ∧
      ((Origin.gateway (some labSeed)).after
        (.publish r :: List.replicate 507 .store)).pollOnce.table.nodes =
          labUps.map Vgwcp.endpointOf := by
  obtain ⟨r, hr, heffect⟩ := Origin.command_takes_effect (.gateway (some labSeed)) "RR".toList .rr
    (by decide) (by simp [labUps]) labUps_length (.cons .dotted (.cons .mapped .nil))
  cases labUps_command.symm.trans hr
  have hlog : ((Origin.gateway (some labSeed)).after
      (.publish (.vgwcp .rr labUps labUps_length) :: List.replicate 507 .store)).log = [] := by
    decide +kernel
  have hfirst := heffect []
  simp only [List.nil_append] at hfirst
  refine ⟨_, labUps_command, (hfirst (List.replicate 507 .store) rfl ?_
    (Option.isNone_iff_eq_none.mp (by decide +kernel))
    (Option.isNone_iff_eq_none.mp (by decide +kernel)) ?_).2⟩
  · intro e he r'
    rw [List.eq_of_mem_replicate he]
    intro h
    cases h
  · intro a ha
    rw [hlog] at ha
    cases ha

end Shm

end VioletGateway
