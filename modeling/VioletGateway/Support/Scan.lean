import Mathlib.Data.List.TakeWhile
import Mathlib.Tactic

/-!
# Reading numbers with `sscanf`

A text is a list of characters, one for each byte. `sscanf` takes a format, a list of `%u` conversions
and of literal characters, and returns the values it has stored when the text or the format ends or a
directive fails. A `%u` conversion skips white space, takes a sign and as many digits as there are, and
converts them as `strtoul` does on a 64-bit target, cut to 32 bits.

`Scans` is the grammar of the texts on which every directive succeeds. `sscanf` stores a value for
every conversion exactly on these (`sscanf_eq_of_scans`, `scans_of_length_sscanf`), and the number
written in a conversion is bounded by the length of the text (`Scans.lt_pow`).
-/

set_option autoImplicit false

namespace VioletGateway.Support

abbrev Text := List Char

/-! ## Leading characters -/

section Leading

variable {α : Type} {p : α → Bool} {l r : List α}

/-- Nothing at the head of the list satisfies `p`. -/
def StopsAt (p : α → Bool) (r : List α) : Prop := ∀ a ∈ r.head?, p a = false

theorem stopsAt_dropWhile (l : List α) : StopsAt p (l.dropWhile p) := by
  intro a ha
  have hhead := List.head?_dropWhile_not p l
  rw [Option.mem_def.mp ha] at hhead
  exact hhead

theorem stopsAt_cons {a : α} (r : List α) (h : p a = false) : StopsAt p (a :: r) := by
  intro b hb
  obtain rfl : a = b := by simpa using hb
  exact h

theorem dropWhile_of_stopsAt (h : StopsAt p r) : r.dropWhile p = r := by
  cases r with
  | nil => rfl
  | cons a r =>
      have ha : p a = false := h a rfl
      exact List.dropWhile_cons_of_neg (by simp [ha])

theorem takeWhile_of_stopsAt (h : StopsAt p r) : r.takeWhile p = [] := by
  cases r with
  | nil => rfl
  | cons a r =>
      have ha : p a = false := h a rfl
      exact List.takeWhile_cons_of_neg (by simp [ha])

/-- A list whose front satisfies `p` up to a place where `p` fails is cut at that place. -/
theorem dropWhile_append_of_stopsAt (hl : ∀ a ∈ l, p a = true) (hr : StopsAt p r) :
    (l ++ r).dropWhile p = r := by
  rw [List.dropWhile_append_of_pos hl, dropWhile_of_stopsAt hr]

theorem takeWhile_append_of_stopsAt (hl : ∀ a ∈ l, p a = true) (hr : StopsAt p r) :
    (l ++ r).takeWhile p = l := by
  rw [List.takeWhile_append_of_pos hl, takeWhile_of_stopsAt hr, List.append_nil]

end Leading

/-! ## Decimal digits -/

theorem isDigit_of_mem_toDigits {n : Nat} {c : Char} (h : c ∈ Nat.toDigits 10 n) : c.isDigit = true :=
  Nat.isDigit_of_mem_toDigits (by omega) (by omega) h

theorem not_mem_toDigits {n : Nat} {c : Char} (h : c.isDigit = false) : c ∉ Nat.toDigits 10 n := by
  intro hc
  rw [isDigit_of_mem_toDigits hc] at h
  exact Bool.noConfusion h

/-! ## One conversion -/

/-- `isspace` of the C locale. -/
def isSpace (c : Char) : Bool :=
  c = ' ' || c = '\t' || c = '\n' || c = '\r' || c = Char.ofNat 11 || c = Char.ofNat 12

/-- The optional sign of a number: whether it is a minus, and the text behind it. -/
def takeSign : Text → Bool × Text
  | [] => (false, [])
  | c :: s => if c = '-' then (true, s) else if c = '+' then (false, s) else (false, c :: s)

/-- What `%u` stores for the number `v` with or without a minus. -/
def strtoul (neg : Bool) (v : Nat) : UInt32 :=
  if 2 ^ 64 ≤ v then UInt32.ofNat (2 ^ 64 - 1)
  else UInt32.ofNat (if neg then 2 ^ 64 - v else v)

/-- One `%u` conversion: the value and the text behind it. -/
def scanUnsigned (s : Text) : Option (UInt32 × Text) :=
  let signed := takeSign (s.dropWhile isSpace)
  let digits := signed.2.takeWhile Char.isDigit
  if digits = [] then none
  else some (strtoul signed.1 (Nat.ofDigitChars 10 digits 0), signed.2.dropWhile Char.isDigit)

/-- The sign is written as nothing, as a plus or as a minus. -/
inductive Sign : Bool → Text → Prop
  | none : Sign false []
  | plus : Sign false ['+']
  | minus : Sign true ['-']

/-- The text `s` starts with the number `v`, negated when `neg`, and `rest` follows. -/
structure Numeral (neg : Bool) (v : Nat) (s rest : Text) : Prop where
  spelled : ∃ spaces sign digits : Text, s = spaces ++ (sign ++ (digits ++ rest)) ∧
    (∀ c ∈ spaces, isSpace c = true) ∧ Sign neg sign ∧ digits ≠ [] ∧
    (∀ c ∈ digits, c.isDigit = true) ∧ v = Nat.ofDigitChars 10 digits 0
  stops : StopsAt Char.isDigit rest

theorem isSpace_of_isDigit {c : Char} (h : c.isDigit = true) : isSpace c = false := by
  by_contra hs
  rw [Bool.not_eq_false] at hs
  simp only [isSpace, Bool.or_eq_true, decide_eq_true_eq] at hs
  rcases hs with ((((rfl | rfl) | rfl) | rfl) | rfl) | rfl <;> revert h <;> decide

theorem takeSign_of_isDigit {c : Char} (s : Text) (h : c.isDigit = true) :
    takeSign (c :: s) = (false, c :: s) := by
  have hm : c ≠ '-' := by rintro rfl; revert h; decide
  have hp : c ≠ '+' := by rintro rfl; revert h; decide
  simp only [takeSign, if_neg hm, if_neg hp]

/-- A sign and what it leaves, before a digit. -/
theorem takeSign_append {neg : Bool} {sign s : Text} (hs : Sign neg sign)
    (hd : ∃ c t, s = c :: t ∧ c.isDigit = true) : takeSign (sign ++ s) = (neg, s) := by
  obtain ⟨c, t, rfl, hc⟩ := hd
  cases hs with
  | none => exact takeSign_of_isDigit t hc
  | plus => rfl
  | minus => rfl

theorem sign_of_takeSign (s : Text) :
    ∃ sign, Sign (takeSign s).1 sign ∧ s = sign ++ (takeSign s).2 := by
  cases s with
  | nil => exact ⟨[], .none, rfl⟩
  | cons c s =>
      by_cases hm : c = '-'
      · subst hm
        exact ⟨['-'], .minus, rfl⟩
      · by_cases hp : c = '+'
        · subst hp
          exact ⟨['+'], .plus, rfl⟩
        · simp only [takeSign, if_neg hm, if_neg hp]
          exact ⟨[], .none, rfl⟩

/-- Before a sign or a digit there is no white space to skip. -/
theorem stopsAt_space_sign {neg : Bool} {sign s : Text} (hs : Sign neg sign)
    (hd : ∃ c t, s = c :: t ∧ c.isDigit = true) : StopsAt isSpace (sign ++ s) := by
  obtain ⟨c, t, rfl, hc⟩ := hd
  intro a ha
  cases hs with
  | none =>
      obtain rfl : c = a := by simpa using ha
      exact isSpace_of_isDigit hc
  | plus =>
      obtain rfl : '+' = a := by simpa using ha
      rfl
  | minus =>
      obtain rfl : '-' = a := by simpa using ha
      rfl

theorem scanUnsigned_of_numeral {neg : Bool} {v : Nat} {s rest : Text} (h : Numeral neg v s rest) :
    scanUnsigned s = some (strtoul neg v, rest) := by
  obtain ⟨⟨spaces, sign, digits, rfl, hspaces, hsign, hne, hdigits, rfl⟩, hrest⟩ := h
  have hhead : ∃ c t, digits ++ rest = c :: t ∧ c.isDigit = true := by
    obtain ⟨c, t, rfl⟩ := List.exists_cons_of_ne_nil hne
    exact ⟨c, t ++ rest, rfl, hdigits c List.mem_cons_self⟩
  simp only [scanUnsigned]
  rw [dropWhile_append_of_stopsAt hspaces (stopsAt_space_sign hsign hhead),
    takeSign_append hsign hhead]
  simp only
  rw [takeWhile_append_of_stopsAt hdigits hrest, dropWhile_append_of_stopsAt hdigits hrest,
    if_neg hne]

theorem numeral_of_scanUnsigned {s rest : Text} {x : UInt32} (h : scanUnsigned s = some (x, rest)) :
    ∃ neg v, Numeral neg v s rest ∧ x = strtoul neg v := by
  simp only [scanUnsigned] at h
  split at h
  · cases h
  · next hne =>
      simp only [Option.some.injEq, Prod.mk.injEq] at h
      obtain ⟨rfl, rfl⟩ := h
      obtain ⟨sign, hsign, hsplit⟩ := sign_of_takeSign (s.dropWhile isSpace)
      refine ⟨_, _, ⟨⟨s.takeWhile isSpace, sign, _, ?_, fun _ => List.mem_takeWhile_imp, hsign,
        hne, fun _ => List.mem_takeWhile_imp, rfl⟩, stopsAt_dropWhile _⟩, rfl⟩
      rw [List.takeWhile_append_dropWhile, ← hsplit, List.takeWhile_append_dropWhile]

/-! ## A whole format -/

inductive Directive
  | unsigned
  | literal (c : Char)
deriving DecidableEq

/-- The values that `sscanf` stores; their number is what it returns. -/
def sscanf : List Directive → Text → List UInt32
  | [], _ => []
  | .unsigned :: ds, s =>
      match scanUnsigned s with
      | some (x, rest) => x :: sscanf ds rest
      | none => []
  | .literal _ :: _, [] => []
  | .literal c :: ds, c' :: rest => if c' = c then sscanf ds rest else []

/-- How many values a format asks for. -/
def conversions (ds : List Directive) : Nat := ds.count .unsigned

/-- Every directive of the format succeeds on the text; the list holds the numbers as written, each
with its sign. -/
inductive Scans : List Directive → List (Bool × Nat) → Text → Prop
  | nil (s : Text) : Scans [] [] s
  | unsigned {ds : List Directive} {neg : Bool} {v : Nat} {vs : List (Bool × Nat)} {s rest : Text}
      (hv : Numeral neg v s rest) (hs : Scans ds vs rest) : Scans (.unsigned :: ds) ((neg, v) :: vs) s
  | literal {ds : List Directive} {vs : List (Bool × Nat)} {rest : Text} (c : Char)
      (hs : Scans ds vs rest) : Scans (.literal c :: ds) vs (c :: rest)

variable {ds : List Directive} {vs : List (Bool × Nat)} {s : Text}

theorem sscanf_eq_of_scans (h : Scans ds vs s) : sscanf ds s = vs.map fun x => strtoul x.1 x.2 := by
  induction h with
  | nil s => rfl
  | unsigned hv hs ih =>
      simp only [sscanf, scanUnsigned_of_numeral hv, List.map_cons, ih]
  | literal c hs ih => simpa only [sscanf, if_pos] using ih

theorem length_of_scans (h : Scans ds vs s) : vs.length = conversions ds := by
  induction h with
  | nil s => rfl
  | unsigned hv hs ih => simpa [conversions] using ih
  | literal c hs ih => simpa [conversions] using ih

/-- A value for every conversion means that no directive failed, the last ones included when they are
conversions. -/
theorem scans_of_length_sscanf (ds : List Directive) {s : Text}
    (hlast : ds.getLast? = some .unsigned) (h : (sscanf ds s).length = conversions ds) :
    ∃ vs, Scans ds vs s := by
  induction ds generalizing s with
  | nil => exact ⟨[], .nil s⟩
  | cons d ds ih =>
      -- the rest of the format ends in a conversion too, or there is no rest
      have hrest : ds = [] ∨ ds.getLast? = some .unsigned := by
        cases ds with
        | nil => exact .inl rfl
        | cons d' ds => exact .inr (by simpa using hlast)
      cases d with
      | unsigned =>
          cases hx : scanUnsigned s with
          | none => simp [sscanf, hx, conversions] at h
          | some p =>
              obtain ⟨x, rest⟩ := p
              obtain ⟨neg, v, hv, -⟩ := numeral_of_scanUnsigned hx
              rcases hrest with rfl | hrest
              · exact ⟨[(neg, v)], .unsigned hv (.nil rest)⟩
              · have hlen : (sscanf ds rest).length = conversions ds := by
                  simpa [sscanf, hx, conversions] using h
                obtain ⟨vs, hvs⟩ := ih hrest hlen
                exact ⟨(neg, v) :: vs, .unsigned hv hvs⟩
      | literal c =>
          have hds : ds.getLast? = some .unsigned := by
            rcases hrest with rfl | hrest
            · simp at hlast
            · exact hrest
          have hpos : 0 < conversions ds :=
            List.count_pos_iff.mpr (List.mem_of_getLast? hds)
          have hcount : conversions (.literal c :: ds) = conversions ds := by simp [conversions]
          cases s with
          | nil => simp only [sscanf, List.length_nil, hcount] at h; omega
          | cons c' s =>
              by_cases hc : c' = c
              · subst hc
                simp only [sscanf, if_pos, hcount] at h
                obtain ⟨vs, hvs⟩ := ih hds h
                exact ⟨vs, .literal c' hvs⟩
              · simp only [sscanf, if_neg hc, List.length_nil, hcount] at h
                omega

/-! ## The numbers are small when the text is short -/

theorem ofDigitChars_lt (digits : Text) (h : ∀ c ∈ digits, c.isDigit = true) (init : Nat) :
    Nat.ofDigitChars 10 digits init < 10 ^ digits.length * (init + 1) := by
  induction digits generalizing init with
  | nil => simp
  | cons c digits ih =>
      have hc : c.toNat - '0'.toNat ≤ 9 := by
        have := h c List.mem_cons_self
        simp only [Char.isDigit, Bool.and_eq_true, decide_eq_true_eq] at this
        have h9 : c.val.toNat ≤ 57 := this.2
        change c.val.toNat - 48 ≤ 9
        omega
      rw [Nat.ofDigitChars_cons, List.length_cons, Nat.pow_succ]
      calc Nat.ofDigitChars 10 digits (10 * init + (c.toNat - '0'.toNat))
          < 10 ^ digits.length * (10 * init + (c.toNat - '0'.toNat) + 1) :=
            ih (fun c' hc' => h c' (List.mem_cons_of_mem c hc')) _
        _ ≤ 10 ^ digits.length * (10 * (init + 1)) := Nat.mul_le_mul_left _ (by omega)
        _ = 10 ^ digits.length * 10 * (init + 1) := by ring

/-- A number takes at least as many characters as its value has digits. -/
theorem Numeral.lt_pow {neg : Bool} {v : Nat} {s rest : Text} (h : Numeral neg v s rest) :
    rest.length < s.length ∧ v < 10 ^ (s.length - rest.length) := by
  obtain ⟨⟨spaces, sign, digits, rfl, -, -, hne, hdigits, rfl⟩, -⟩ := h
  have hpos : 0 < digits.length := List.length_pos_of_ne_nil hne
  have hlen : (spaces ++ (sign ++ (digits ++ rest))).length =
      spaces.length + sign.length + digits.length + rest.length := by
    simp only [List.length_append]
    omega
  refine ⟨by omega, ?_⟩
  calc Nat.ofDigitChars 10 digits 0
      < 10 ^ digits.length := by simpa using ofDigitChars_lt digits hdigits 0
    _ ≤ 10 ^ ((spaces ++ (sign ++ (digits ++ rest))).length - rest.length) :=
        Nat.pow_le_pow_right (by omega) (by omega)

/-- Each directive takes a character. -/
theorem Scans.length_le (h : Scans ds vs s) : ds.length ≤ s.length := by
  induction h with
  | nil s => simp
  | unsigned hv hs ih =>
      have := hv.lt_pow.1
      rw [List.length_cons]
      omega
  | literal c hs ih =>
      simp only [List.length_cons]
      omega

/-- The numbers on a text that a format accepts, bounded by what the other directives leave of it. -/
theorem Scans.lt_pow (h : Scans ds vs s) : ∀ x ∈ vs, x.2 < 10 ^ (s.length + 1 - ds.length) := by
  induction h with
  | nil s => simp
  | @unsigned ds neg v vs s rest hv hs ih =>
      have hshort := hv.lt_pow.1
      have hrest := hs.length_le
      intro x hx
      rcases List.mem_cons.mp hx with rfl | hx
      · refine hv.lt_pow.2.trans_le (Nat.pow_le_pow_right (by omega) ?_)
        rw [List.length_cons]
        omega
      · refine (ih x hx).trans_le (Nat.pow_le_pow_right (by omega) ?_)
        rw [List.length_cons]
        omega
  | @literal ds vs rest c hs ih =>
      intro x hx
      refine (ih x hx).trans_le (Nat.pow_le_pow_right (by omega) ?_)
      simp only [List.length_cons]
      omega

/-- A number below `2 ^ 31` is stored as it is, or as its negation. -/
theorem strtoul_toNat {neg : Bool} {v : Nat} (h : v < 2 ^ 31) :
    (strtoul neg v).toNat = if neg then (2 ^ 32 - v) % 2 ^ 32 else v := by
  have hbig : ¬2 ^ 64 ≤ v := by omega
  simp only [strtoul, if_neg hbig, UInt32.toNat_ofNat']
  split <;> omega

end VioletGateway.Support
