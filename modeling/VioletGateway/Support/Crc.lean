import Mathlib.Tactic

/-!
# Cyclic redundancy checks

A reflected CRC of any width: the register is shifted right, and the generator is added when a one falls
out. Shifting is linear in the register, so eight shifts can be looked up in a table by the byte that
falls out (`byteStep_split`). With a table that is wrong in some entries, the register is off by the
remainder of the errors, taken as a message of their own (`tableCrc_eq_iff`).
-/

set_option autoImplicit false

namespace VioletGateway.Support.Crc

variable {w : Nat} (poly : BitVec w)

/-! ## The register -/

/-- One bit is shifted out. -/
def bitStep (s : BitVec w) : BitVec w := if s.getLsbD 0 then (s >>> 1) ^^^ poly else s >>> 1

/-- Eight bits are shifted out. -/
def byteStep (s : BitVec w) : BitVec w := (bitStep poly)^[8] s

/-- The check of a list of bytes, bit by bit, with the initial register and the final mask. -/
def reflected (init xorOut : BitVec w) (data : List (BitVec 8)) : BitVec w :=
  data.foldl (fun s c => byteStep poly (s ^^^ c.setWidth w)) init ^^^ xorOut

theorem bitStep_xor (a b : BitVec w) : bitStep poly (a ^^^ b) = bitStep poly a ^^^ bitStep poly b := by
  simp only [bitStep, BitVec.getLsbD_xor, BitVec.ushiftRight_xor_distrib]
  cases a.getLsbD 0 with
  | false =>
      cases b.getLsbD 0 with
      | false => rfl
      | true => exact BitVec.xor_assoc _ _ _
  | true =>
      cases b.getLsbD 0 with
      | false =>
          show (a >>> 1 ^^^ b >>> 1) ^^^ poly = (a >>> 1 ^^^ poly) ^^^ b >>> 1
          rw [BitVec.xor_assoc, BitVec.xor_assoc, BitVec.xor_comm poly]
      | true =>
          show a >>> 1 ^^^ b >>> 1 = (a >>> 1 ^^^ poly) ^^^ (b >>> 1 ^^^ poly)
          rw [BitVec.xor_assoc, BitVec.xor_comm _ poly, ← BitVec.xor_assoc poly, BitVec.xor_self,
            BitVec.zero_xor]

theorem iterate_bitStep_xor (n : Nat) (a b : BitVec w) :
    (bitStep poly)^[n] (a ^^^ b) = (bitStep poly)^[n] a ^^^ (bitStep poly)^[n] b := by
  induction n generalizing a b with
  | zero => rfl
  | succ n ih =>
      rw [Function.iterate_succ_apply, Function.iterate_succ_apply, Function.iterate_succ_apply,
        bitStep_xor, ih]

theorem byteStep_xor (a b : BitVec w) :
    byteStep poly (a ^^^ b) = byteStep poly a ^^^ byteStep poly b :=
  iterate_bitStep_xor poly 8 a b

theorem byteStep_zero : byteStep poly 0#w = 0#w := by
  have hxor := byteStep_xor poly 0#w 0#w
  rwa [BitVec.xor_self, BitVec.xor_self] at hxor

/-! ## One byte by table -/

/-- Zeros that are shifted out leave the rest as it is. -/
theorem iterate_bitStep_of_low {n : Nat} {s : BitVec w} (h : ∀ i < n, s.getLsbD i = false) :
    (bitStep poly)^[n] s = s >>> n := by
  induction n with
  | zero => rw [Function.iterate_zero_apply, BitVec.ushiftRight_zero]
  | succ n ih =>
      have hlow : (s >>> n).getLsbD 0 = false := by
        rw [BitVec.getLsbD_ushiftRight]
        exact h n (Nat.lt_succ_self n)
      rw [Function.iterate_succ_apply', ih fun i hi => h i (Nat.lt_succ_of_lt hi), bitStep, hlow,
        if_neg Bool.false_ne_true, ← BitVec.shiftRight_add]

/-- The low byte of the register, as a word. -/
def lowByte (s : BitVec w) : BitVec w := (s.setWidth 8).setWidth w

theorem getLsbD_lowByte (s : BitVec w) (i : Nat) :
    (lowByte s).getLsbD i = (decide (i < 8) && s.getLsbD i) := by
  rw [lowByte, BitVec.getLsbD_setWidth, BitVec.getLsbD_setWidth]
  by_cases hi : i < w
  · simp [hi]
  · simp [hi, BitVec.getLsbD_of_ge s i (Nat.le_of_not_lt hi)]

/-- Eight shifts move the upper part down and look the low byte up. -/
theorem byteStep_split (s : BitVec w) :
    byteStep poly s = (s >>> 8) ^^^ byteStep poly (lowByte s) := by
  have hlow : ∀ i < 8, (s ^^^ lowByte s).getLsbD i = false := by
    intro i hi
    rw [BitVec.getLsbD_xor, getLsbD_lowByte, decide_eq_true hi, Bool.true_and, Bool.xor_self]
  have hshift : (s ^^^ lowByte s) >>> 8 = s >>> 8 := by
    apply BitVec.eq_of_getLsbD_eq
    intro i _
    have hge : ¬8 + i < 8 := by omega
    rw [BitVec.getLsbD_ushiftRight, BitVec.getLsbD_ushiftRight, BitVec.getLsbD_xor, getLsbD_lowByte,
      decide_eq_false hge, Bool.false_and, Bool.xor_false]
  have hupper : byteStep poly (s ^^^ lowByte s) = s >>> 8 := by
    rw [byteStep, iterate_bitStep_of_low poly hlow, hshift]
  have hsplit : s = s ^^^ lowByte s ^^^ lowByte s := by
    rw [BitVec.xor_assoc, BitVec.xor_self, BitVec.xor_zero]
  rw [← hupper, ← byteStep_xor, ← hsplit]

/-! ## Whole messages by table -/

/-- The entry that the register and the next byte select. -/
def index (s : BitVec w) (c : BitVec 8) : BitVec 8 := s.setWidth 8 ^^^ c

/-- One byte by the table `T`. -/
def tableStep (T : BitVec 8 → BitVec w) (s : BitVec w) (c : BitVec 8) : BitVec w :=
  (s >>> 8) ^^^ T (index s c)

/-- The check of a list of bytes with the table `T`. -/
def tableCrc (T : BitVec 8 → BitVec w) (init xorOut : BitVec w) (data : List (BitVec 8)) : BitVec w :=
  data.foldl (tableStep T) init ^^^ xorOut

/-- The entries of the table that are read on the way. -/
def entriesRead (T : BitVec 8 → BitVec w) : BitVec w → List (BitVec 8) → List (BitVec 8)
  | _, [] => []
  | s, c :: data => index s c :: entriesRead T (tableStep T s c) data

/-- How far an entry is off. -/
def entryError (T : BitVec 8 → BitVec w) (i : BitVec 8) : BitVec w :=
  T i ^^^ byteStep poly (i.setWidth w)

/-- The register that a message of whole words leaves behind. -/
def remainder (msg : List (BitVec w)) : BitVec w :=
  msg.foldl (fun d e => byteStep poly d ^^^ e) 0#w

/-- The right table is the one of the bitwise steps. -/
theorem byteStep_byte (s : BitVec w) (c : BitVec 8) :
    byteStep poly (s ^^^ c.setWidth w) = (s >>> 8) ^^^ byteStep poly ((index s c).setWidth w) := by
  have hlow : lowByte (s ^^^ c.setWidth w) = (index s c).setWidth w := by
    apply BitVec.eq_of_getLsbD_eq
    intro i hi
    rw [getLsbD_lowByte, index, BitVec.getLsbD_xor, BitVec.getLsbD_setWidth, BitVec.getLsbD_setWidth,
      BitVec.getLsbD_xor, BitVec.getLsbD_setWidth]
    by_cases h8 : i < 8
    · simp [hi, h8]
    · simp [hi, h8, BitVec.getLsbD_of_ge c i (Nat.le_of_not_lt h8)]
  have hupper : (s ^^^ c.setWidth w) >>> 8 = s >>> 8 := by
    apply BitVec.eq_of_getLsbD_eq
    intro i _
    rw [BitVec.getLsbD_ushiftRight, BitVec.getLsbD_ushiftRight, BitVec.getLsbD_xor,
      BitVec.getLsbD_setWidth, BitVec.getLsbD_of_ge c (8 + i) (Nat.le_add_right 8 i), Bool.and_false,
      Bool.xor_false]
  rw [byteStep_split, hlow, hupper]

theorem tableStep_eq (T : BitVec 8 → BitVec w) (s : BitVec w) (c : BitVec 8) :
    tableStep T s c = byteStep poly (s ^^^ c.setWidth w) ^^^ entryError poly T (index s c) := by
  rw [byteStep_byte, entryError, tableStep, BitVec.xor_comm (T _), BitVec.xor_assoc,
    ← BitVec.xor_assoc (byteStep poly _), BitVec.xor_self, BitVec.zero_xor]

/-- The distance of the two registers moves on like a register of its own, fed with the errors. -/
theorem tableStep_xor_byteStep (T : BitVec 8 → BitVec w) (s r : BitVec w) (c : BitVec 8) :
    tableStep T s c ^^^ byteStep poly (r ^^^ c.setWidth w) =
      byteStep poly (s ^^^ r) ^^^ entryError poly T (index s c) := by
  have hcancel : s ^^^ c.setWidth w ^^^ (r ^^^ c.setWidth w) = s ^^^ r := by
    rw [BitVec.xor_assoc, BitVec.xor_comm r, ← BitVec.xor_assoc (c.setWidth w), BitVec.xor_self,
      BitVec.zero_xor]
  rw [tableStep_eq poly, BitVec.xor_assoc, BitVec.xor_comm (entryError poly T _), ← BitVec.xor_assoc,
    ← byteStep_xor, hcancel]

theorem foldl_tableStep_xor (T : BitVec 8 → BitVec w) (data : List (BitVec 8)) (s r : BitVec w) :
    data.foldl (tableStep T) s ^^^ data.foldl (fun r c => byteStep poly (r ^^^ c.setWidth w)) r =
      ((entriesRead T s data).map (entryError poly T)).foldl (fun d e => byteStep poly d ^^^ e)
        (s ^^^ r) := by
  induction data generalizing s r with
  | nil => rfl
  | cons c data ih =>
      rw [List.foldl_cons, List.foldl_cons, ih, tableStep_xor_byteStep]
      rfl

/-- With any table the check is right exactly when the errors of the entries it reads leave no
remainder. -/
theorem tableCrc_eq_iff (T : BitVec 8 → BitVec w) (init xorOut : BitVec w) (data : List (BitVec 8)) :
    tableCrc T init xorOut data = reflected poly init xorOut data ↔
      remainder poly ((entriesRead T init data).map (entryError poly T)) = 0#w := by
  rw [tableCrc, reflected, BitVec.xor_left_inj, ← BitVec.xor_eq_zero_iff, foldl_tableStep_xor,
    BitVec.xor_self, remainder]

theorem remainder_of_zero {msg : List (BitVec w)} (h : ∀ e ∈ msg, e = 0#w) :
    remainder poly msg = 0#w := by
  unfold remainder
  induction msg with
  | nil => rfl
  | cons e msg ih =>
      rw [List.foldl_cons, byteStep_zero, h e List.mem_cons_self, BitVec.xor_zero]
      exact ih fun e he => h e (List.mem_cons_of_mem _ he)

theorem remainder_append (msg : List (BitVec w)) (e : BitVec w) :
    remainder poly (msg ++ [e]) = byteStep poly (remainder poly msg) ^^^ e := by
  rw [remainder, List.foldl_append, ← remainder]
  rfl

theorem entriesRead_append (T : BitVec 8 → BitVec w) (s : BitVec w) (data : List (BitVec 8))
    (c : BitVec 8) :
    entriesRead T s (data ++ [c]) = entriesRead T s data ++ [index (data.foldl (tableStep T) s) c] := by
  induction data generalizing s with
  | nil => rfl
  | cons b data ih => rw [List.cons_append, entriesRead, ih, entriesRead, List.foldl_cons, List.cons_append]

theorem index_injective (s : BitVec w) : Function.Injective (index s) := by
  intro c c' h
  exact (BitVec.xor_right_inj _).mp h

/-- Where the errors of two entries are never the same, a message can be continued by at most one byte
so that its check is right. -/
theorem last_byte_unique {T : BitVec 8 → BitVec w} (hinj : Function.Injective (entryError poly T))
    {init xorOut : BitVec w} {data : List (BitVec 8)} {c c' : BitVec 8}
    (h : tableCrc T init xorOut (data ++ [c]) = reflected poly init xorOut (data ++ [c]))
    (h' : tableCrc T init xorOut (data ++ [c']) = reflected poly init xorOut (data ++ [c'])) : c = c' := by
  rw [tableCrc_eq_iff, entriesRead_append, List.map_append, List.map_singleton, remainder_append] at h h'
  have herr := (BitVec.xor_right_inj _).mp (h.trans h'.symm)
  exact index_injective _ (hinj herr)

/-- If the first entry is zero, it is read again and again for the bytes of the register itself, and
for no other message. -/
theorem entriesRead_zero_iff {T : BitVec 8 → BitVec w} (h0 : T 0#8 = 0#w) (data : List (BitVec 8))
    (s : BitVec w) :
    (∀ i ∈ entriesRead T s data, i = 0#8) ↔
      ∀ k c, data[k]? = some c → c = (s >>> (8 * k)).setWidth 8 := by
  induction data generalizing s with
  | nil =>
      constructor
      · intro _ k c hc
        rw [List.getElem?_nil] at hc
        cases hc
      · intro _ i hi
        exact absurd hi List.not_mem_nil
  | cons b data ih =>
      have hfirst : index s b = 0#8 ↔ b = s.setWidth 8 := by
        rw [index, BitVec.xor_eq_zero_iff]
        exact eq_comm
      have hstep : index s b = 0#8 → tableStep T s b = s >>> 8 := by
        intro hb
        rw [tableStep, hb, h0, BitVec.xor_zero]
      have hshift : ∀ k, s >>> 8 >>> (8 * k) = s >>> (8 * (k + 1)) := by
        intro k
        rw [← BitVec.shiftRight_add, Nat.mul_succ, Nat.add_comm]
      rw [entriesRead, List.forall_mem_cons]
      constructor
      · rintro ⟨hb, hrest⟩ k c hc
        rw [hstep hb] at hrest
        cases k with
        | zero =>
            cases hc
            exact hfirst.mp hb
        | succ k =>
            rw [← hshift]
            exact (ih _).mp hrest k c hc
      · intro h
        have hb : index s b = 0#8 := hfirst.mpr (h 0 b rfl)
        refine ⟨hb, ?_⟩
        rw [hstep hb]
        apply (ih _).mpr
        intro k c hc
        rw [hshift]
        exact h (k + 1) c hc

end VioletGateway.Support.Crc
