import VioletGateway.Support.Crc

/-!
# The string hash `util::crc32`

`src/base/util.cpp` computes a CRC-32 of a string byte by byte. Its loop shifts the register right, as
the reflected CRC-32 does, but its table is the one of the loop that shifts left, with three constants
mistyped besides. Entry 0 is the only one that is right (`entryError_eq_zero_iff`), and a string whose
lookups all hit it is a prefix of four bytes `0xff` followed by zeros (`blank_iff_lookups`).
-/

set_option autoImplicit false

namespace VioletGateway.Util

open Support

/-! ## The code -/

/-- `crc32_table`. -/
def crc32Table : List UInt32 :=
  [0x00000000, 0x04c11db7, 0x09823b6e, 0x0d4326d9, 0x130476dc, 0x17c56b6b, 0x1a864db2, 0x1e475005,
   0x2608edb8, 0x22c9f00f, 0x2f8ad6d6, 0x2b4bcb61, 0x350c9b64, 0x31cd86d3, 0x3c8ea00a, 0x384fbdbd,
   0x4c11db70, 0x48d0c6c7, 0x4593e01e, 0x4152fda9, 0x5f15adac, 0x5bd4b01b, 0x569796c2, 0x52568b75,
   0x6a1936c8, 0x6ed82b7f, 0x639b0da6, 0x675a1011, 0x791d4014, 0x7ddc5da3, 0x709f7b7a, 0x745e66cd,
   0x9823b6e0, 0x9ce2ab57, 0x91a18d8e, 0x95609039, 0x8b27c03c, 0x8fe6dd8b, 0x82a5fb52, 0x8664e6e5,
   0xbe2b5b58, 0xbaea46ef, 0xb7a96036, 0xb3687d81, 0xad2f2d84, 0xa9ee3033, 0xa4ad16ea, 0xa06c0b5d,
   0xd4326d90, 0xd0f37027, 0xddb056fe, 0xd9714b49, 0xc7361b4c, 0xc3f706fb, 0xceb42022, 0xca753d95,
   0xf23a8028, 0xf6fb9d9f, 0xfbb8bb46, 0xff79a6f1, 0xe13ef6f4, 0xe5ffeb43, 0xe8bccd9a, 0xec7dd02d,
   0x34867077, 0x30476dc0, 0x3d044b19, 0x39c556ae, 0x278206ab, 0x23431b1c, 0x2e003dc5, 0x2ac12072,
   0x128e9dcf, 0x164f8078, 0x1b0ca6a1, 0x1fcdbb16, 0x018aeb13, 0x054bf6a4, 0x0808d07d, 0x0cc9cdca,
   0x7897ab07, 0x7c56b6b0, 0x71159069, 0x75d48dde, 0x6b93dddb, 0x6f52c06c, 0x6211e6b5, 0x66d0fb02,
   0x5e9f46bf, 0x5a5e5b08, 0x571d7dd1, 0x53dc6066, 0x4d9b3063, 0x495a2dd4, 0x44190b0d, 0x40d816ba,
   0xaca5c697, 0xa864db20, 0xa527fdf9, 0xa1e6e04e, 0xbfa1b04b, 0xbb60adfc, 0xb6238b25, 0xb2e29692,
   0x8aad2b2f, 0x8e6c3698, 0x832f1041, 0x87ee0df6, 0x99a95df3, 0x9d684044, 0x902b669d, 0x94ea7b2a,
   0xe0b41de7, 0xe4750050, 0xe9362689, 0xedf73b3e, 0xf3b06b3b, 0xf771768c, 0xfa325055, 0xfef34de2,
   0xc6bcf05f, 0xc27dede8, 0xcf3ecb31, 0xcbffd686, 0xd5b88683, 0xd1799b34, 0xdc3abded, 0xd8fba05a,
   0x690ce0ee, 0x6dcdfd59, 0x608edb80, 0x644fc637, 0x7a089632, 0x7ec98b85, 0x738aad5c, 0x774bb0eb,
   0x4f040d56, 0x4bc510e1, 0x46863638, 0x42472b8f, 0x5c007b8a, 0x58c1663d, 0x558240e4, 0x51435d53,
   0x251d3b9e, 0x21dc2629, 0x2c9f00f0, 0x285e1d47, 0x36194d42, 0x32d850f5, 0x3f9b762c, 0x3b5a6b9b,
   0x0315d626, 0x07d4cb91, 0x0a97ed48, 0x0e56f0ff, 0x1011a0fa, 0x14d0bd4d, 0x19939b94, 0x1d528623,
   0xf12f560e, 0xf5ee4bb9, 0xf8ad6d60, 0xfc6c70d7, 0xe22b20d2, 0xe6ea3d65, 0xeba91bbc, 0xef68060b,
   0xd727bbb6, 0xd3e6a601, 0xdea580d8, 0xda649d6f, 0xc423cd6a, 0xc0e2d0dd, 0xcda1f604, 0xc960ebb3,
   0xbd3e8d7e, 0xb9ff90c9, 0xb4bcb610, 0xb07daba7, 0xae3afba2, 0xaafbe615, 0xa7b8c0cc, 0xa379dd7b,
   0x9b3660c6, 0x9ff77d71, 0x92b45ba8, 0x9675461f, 0x8832161a, 0x8cf30bad, 0x81b02d74, 0x857130c3,
   0x5d8a9099, 0x594b8d2e, 0x5408abf7, 0x50c9b640, 0x4e8ee645, 0x4a4ffbf2, 0x470cdd2b, 0x43cdc09c,
   0x7b827d21, 0x7f436096, 0x7200464f, 0x76c15bf8, 0x68860bfd, 0x6c47164a, 0x61043093, 0x65c52d24,
   0x119b4be9, 0x155a565e, 0x18197087, 0x1cd86d30, 0x029f3d35, 0x065e2082, 0x0b1d065b, 0x0fdc1bec,
   0x3793a651, 0x3352bbe6, 0x3e119d3f, 0x3ad08088, 0x2497d08d, 0x2056cd3a, 0x2d15ebe3, 0x29d4f654,
   0xc5a92679, 0xc1683bce, 0xcc2b1d17, 0xc8ea00a0, 0xd6ad50a5, 0xd26c4d12, 0xdf2f6bc9, 0xdbee767c,
   0xe3a1cbc1, 0xe760d676, 0xea23f0af, 0xefe2ed18, 0xf0a5bd1d, 0xf464a0aa, 0xf9278673, 0xfde69bc4,
   0x89b8fd09, 0x8d79e0be, 0x803ac667, 0x84fbdbd0, 0x9abc8bd5, 0x9e7d966c, 0x933eb0bb, 0x97ffad0c,
   0xafb010b1, 0xab710d06, 0xa6322bdf, 0xa2f33668, 0xbcb4666d, 0xb8757bda, 0xb5365d03, 0xb1f740b4]

/-- The loop body of `crc32`. -/
def crc32Step (crc : UInt32) (c : UInt8) : UInt32 :=
  (crc >>> 8) ^^^ crc32Table.getD ((crc ^^^ c.toUInt32) &&& 0xFF).toNat 0

/-- `util::crc32`. -/
def crc32 (data : List UInt8) : UInt32 :=
  data.foldl crc32Step 0xFFFFFFFF ^^^ 0xFFFFFFFF

/-! ## The standard -/

/-- The generator `0x04C11DB7`, bit-reversed. -/
def crcPoly : BitVec 32 := 0xEDB88320#32

example : crcPoly = BitVec.reverse 0x04C11DB7#32 := by decide +kernel

/-- The CRC-32 of a string, bit by bit. -/
def standardCrc32 (data : List UInt8) : UInt32 :=
  ⟨Crc.reflected crcPoly 0xFFFFFFFF#32 0xFFFFFFFF#32 (data.map UInt8.toBitVec)⟩

/-! ## The table as the loop sees it -/

/-- An entry of the table, by its byte. -/
def tableEntry (i : BitVec 8) : BitVec 32 := (crc32Table.getD i.toNat 0).toBitVec

theorem crc32Step_toBitVec (crc : UInt32) (c : UInt8) :
    (crc32Step crc c).toBitVec = Crc.tableStep tableEntry crc.toBitVec c.toBitVec := by
  have hindex : ((crc ^^^ c.toUInt32) &&& 0xFF).toNat = (Crc.index crc.toBitVec c.toBitVec).toNat := by
    have hmask : (255 : Nat) = 2 ^ 8 - 1 := rfl
    rw [Crc.index, UInt32.toNat_and, UInt32.toNat_xor, UInt8.toNat_toUInt32, BitVec.toNat_xor,
      BitVec.toNat_setWidth, UInt32.toNat_toBitVec, UInt8.toNat_toBitVec]
    show (crc.toNat ^^^ c.toNat) &&& 255 = _
    rw [hmask, Nat.and_two_pow_sub_one_eq_mod, Nat.xor_mod_two_pow, Nat.mod_eq_of_lt c.toNat_lt]
  rw [crc32Step, hindex, UInt32.toBitVec_xor, UInt32.toBitVec_shiftRight]
  rfl

theorem foldl_crc32Step_toBitVec (data : List UInt8) (crc : UInt32) :
    (data.foldl crc32Step crc).toBitVec =
      (data.map UInt8.toBitVec).foldl (Crc.tableStep tableEntry) crc.toBitVec := by
  induction data generalizing crc with
  | nil => rfl
  | cons c data ih => rw [List.foldl_cons, List.map_cons, List.foldl_cons, ih, crc32Step_toBitVec]

theorem crc32_toBitVec (data : List UInt8) :
    (crc32 data).toBitVec =
      Crc.tableCrc tableEntry 0xFFFFFFFF#32 0xFFFFFFFF#32 (data.map UInt8.toBitVec) := by
  rw [crc32, UInt32.toBitVec_xor, foldl_crc32Step_toBitVec]
  rfl

/-! ## Which entries are right -/

/-- Eight bits of an entry's error, enough to tell the entries apart. -/
def errorDigit (n : Nat) : Nat :=
  (Crc.entryError crcPoly tableEntry (BitVec.ofNat 8 n)).toNat / 16 % 256

/-- No number of the list occurs twice, nor among those met before, which are the bits of `seen`. -/
def noRepeat (seen : Nat) : List Nat → Bool
  | [] => true
  | n :: ns => !seen.testBit n && noRepeat (seen ||| 2 ^ n) ns

theorem nodup_of_noRepeat {seen : Nat} {ns : List Nat} (h : noRepeat seen ns = true) :
    ns.Nodup ∧ ∀ n ∈ ns, seen.testBit n = false := by
  induction ns generalizing seen with
  | nil => exact ⟨List.nodup_nil, fun n hn => absurd hn List.not_mem_nil⟩
  | cons n ns ih =>
      rw [noRepeat, Bool.and_eq_true, Bool.not_eq_true'] at h
      obtain ⟨hfresh, hrest⟩ := h
      obtain ⟨hnodup, hnew⟩ := ih hrest
      have hparts : ∀ m ∈ ns, seen.testBit m = false ∧ n ≠ m := by
        intro m hm
        have hbit := hnew m hm
        rw [Nat.testBit_or, Nat.testBit_two_pow, Bool.or_eq_false_iff, decide_eq_false_iff_not] at hbit
        exact hbit
      refine ⟨List.nodup_cons.mpr ⟨fun hmem => (hparts n hmem).2 rfl, hnodup⟩, ?_⟩
      intro m hm
      rcases List.mem_cons.mp hm with hhead | htail
      · rw [hhead]
        exact hfresh
      · exact (hparts m htail).1

theorem errorDigit_nodup : ((List.range 256).map errorDigit).Nodup := by
  have hcheck : noRepeat 0 ((List.range 256).map errorDigit) = true := by decide +kernel
  exact (nodup_of_noRepeat hcheck).1

/-- No two entries are off by the same word. -/
theorem entryError_injective : Function.Injective (Crc.entryError crcPoly tableEntry) := by
  intro i j h
  have hmem : ∀ b : BitVec 8, b.toNat ∈ List.range 256 := fun b => List.mem_range.mpr b.isLt
  have hdigit : errorDigit i.toNat = errorDigit j.toNat := by
    rw [errorDigit, errorDigit, BitVec.ofNat_toNat, BitVec.setWidth_eq, BitVec.ofNat_toNat,
      BitVec.setWidth_eq, h]
  exact BitVec.eq_of_toNat_eq (List.inj_on_of_nodup_map errorDigit_nodup (hmem i) (hmem j) hdigit)

theorem entryError_zero : Crc.entryError crcPoly tableEntry 0#8 = 0#32 := by decide +kernel

/-- Entry 0 is the only one that belongs to this loop. -/
theorem entryError_eq_zero_iff (i : BitVec 8) :
    Crc.entryError crcPoly tableEntry i = 0#32 ↔ i = 0#8 := by
  constructor
  · intro h
    exact entryError_injective (h.trans entryError_zero.symm)
  · rintro rfl
    exact entryError_zero

/-! ## When the hash is the CRC-32 -/

/-- The entries of the table that the loop reads for a string. -/
def lookups (data : List UInt8) : List (BitVec 8) :=
  Crc.entriesRead tableEntry 0xFFFFFFFF#32 (data.map UInt8.toBitVec)

/-- Four bytes `0xff` and then zeros, cut anywhere. -/
def Blank (data : List UInt8) : Prop :=
  ∀ k (hk : k < data.length), data[k] = if k < 4 then 0xFF else 0

instance (data : List UInt8) : Decidable (Blank data) :=
  inferInstanceAs (Decidable (∀ k (hk : k < data.length), data[k] = if k < 4 then 0xFF else 0))

theorem ones_shiftRight (k : Nat) :
    (0xFFFFFFFF#32 >>> (8 * k)).setWidth 8 = if k < 4 then 0xFF#8 else 0#8 := by
  by_cases hk : k < 4
  · rw [if_pos hk]
    interval_cases k <;> rfl
  · have hzero : 0xFFFFFFFF#32 >>> (8 * k) = 0#32 := BitVec.ushiftRight_eq_zero (by omega)
    rw [if_neg hk, hzero]
    rfl

theorem blank_iff_lookups (data : List UInt8) : Blank data ↔ ∀ i ∈ lookups data, i = 0#8 := by
  have hbyte : ∀ k (c : UInt8), c.toBitVec = (0xFFFFFFFF#32 >>> (8 * k)).setWidth 8 ↔
      c = if k < 4 then 0xFF else 0 := by
    intro k c
    rw [ones_shiftRight, ← UInt8.toBitVec_inj]
    split <;> rfl
  rw [lookups, Crc.entriesRead_zero_iff rfl]
  constructor
  · intro h k b hb
    rw [List.getElem?_map, Option.map_eq_some_iff] at hb
    obtain ⟨c, hc, rfl⟩ := hb
    obtain ⟨hk, rfl⟩ := List.getElem?_eq_some_iff.mp hc
    exact (hbyte k _).mpr (h k hk)
  · intro h k hk
    apply (hbyte k _).mp
    apply h k
    rw [List.getElem?_map, List.getElem?_eq_getElem hk]
    rfl

/-- The blank strings are those for which the loop reads no wrong entry. -/
theorem blank_iff_entriesRight (data : List UInt8) :
    Blank data ↔ ∀ i ∈ lookups data, Crc.entryError crcPoly tableEntry i = 0#32 := by
  rw [blank_iff_lookups]
  exact forall₂_congr fun i _ => (entryError_eq_zero_iff i).symm

/-- The hash of a string is its CRC-32 exactly when the errors of the entries that the loop reads leave
no remainder. -/
theorem crc32_eq_iff_remainder (data : List UInt8) :
    crc32 data = standardCrc32 data ↔
      Crc.remainder crcPoly ((lookups data).map (Crc.entryError crcPoly tableEntry)) = 0#32 := by
  rw [← UInt32.toBitVec_inj, crc32_toBitVec, standardCrc32, Crc.tableCrc_eq_iff]
  rfl

theorem crc32_of_blank {data : List UInt8} (h : Blank data) : crc32 data = standardCrc32 data := by
  apply (crc32_eq_iff_remainder data).mpr
  apply Crc.remainder_of_zero
  intro e he
  obtain ⟨i, hi, rfl⟩ := List.mem_map.mp he
  exact (blank_iff_entriesRight data).mp h i hi

/-- Of the 256 strings that continue a given one by one byte, at most one has its CRC-32 as its hash. -/
theorem continuation_unique {data : List UInt8} {c c' : UInt8}
    (h : crc32 (data ++ [c]) = standardCrc32 (data ++ [c]))
    (h' : crc32 (data ++ [c']) = standardCrc32 (data ++ [c'])) : c = c' := by
  rw [← UInt32.toBitVec_inj, crc32_toBitVec, standardCrc32, List.map_append, List.map_singleton] at h h'
  exact UInt8.toBitVec_inj.mp (Crc.last_byte_unique crcPoly entryError_injective h h')

theorem blank_append {data : List UInt8} (h : Blank data) :
    Blank (data ++ [if data.length < 4 then 0xFF else 0]) := by
  intro k hk
  rw [List.length_append, List.length_singleton] at hk
  rcases Nat.lt_or_eq_of_le (Nat.le_of_lt_succ hk) with hlt | rfl
  · rw [List.getElem_append_left hlt]
    exact h k hlt
  · simp

/-- The hash of a blank string is its CRC-32, and of the strings that continue it by one byte this is
so for the blank one only: the first wrong entry that the loop reads makes the hash wrong. -/
theorem crc32_eq_standard_of_blank {data : List UInt8} (h : Blank data) :
    crc32 data = standardCrc32 data ∧
      ∀ c : UInt8, crc32 (data ++ [c]) = standardCrc32 (data ++ [c]) ↔ Blank (data ++ [c]) := by
  refine ⟨crc32_of_blank h, fun c => ⟨fun hc => ?_, crc32_of_blank⟩⟩
  have hnext := blank_append h
  rw [continuation_unique hc (crc32_of_blank hnext)]
  exact hnext

/-- Four bytes `0xff` have their CRC-32 as their hash; with an `a` behind them they have not. -/
theorem crc32_eq_standard_of_blank_ones :
    crc32 [0xFF, 0xFF, 0xFF, 0xFF] = standardCrc32 [0xFF, 0xFF, 0xFF, 0xFF] ∧
      crc32 [0xFF, 0xFF, 0xFF, 0xFF, 0x61] ≠ standardCrc32 [0xFF, 0xFF, 0xFF, 0xFF, 0x61] := by
  have hblank : Blank [0xFF, 0xFF, 0xFF, 0xFF] := by decide
  obtain ⟨heq, hnext⟩ := crc32_eq_standard_of_blank hblank
  exact ⟨heq, fun hc => absurd ((hnext 0x61).mp hc) (by decide)⟩

-- Further on the errors of wrong entries can cancel by accident.
example : crc32 [0xAD, 0xB5, 0x5A, 0x61] = standardCrc32 [0xAD, 0xB5, 0x5A, 0x61] ∧
    ¬Blank [0xAD, 0xB5, 0x5A, 0x61] := by
  decide +kernel

/-- The string `a`: one lookup, of a wrong entry. -/
theorem crc32_ne_standard_a :
    crc32 [0x61] = 0xE6939B94 ∧ standardCrc32 [0x61] = 0xE8B7BE43 ∧
      crc32 [0x61] ≠ standardCrc32 [0x61] := by
  decide +kernel

end VioletGateway.Util
