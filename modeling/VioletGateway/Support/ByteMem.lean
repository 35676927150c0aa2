import Mathlib.Tactic

/-!
# Byte memory with block loads and stores

A memory is a function from offsets to bytes. `load` reads a block of `n` bytes and `store` replaces
one. A load sees exactly the last store to its block (`load_store_self`), a disjoint store is
invisible to it (`load_store_of_disjoint`), and a block written back unchanged changes nothing
(`store_load_self`). `le16`/`le32` and `ofLe16`/`ofLe32` encode machine words as little-endian
blocks; the two directions are inverse to each other.
-/

set_option autoImplicit false

namespace VioletGateway.Support

/-- Byte-addressed memory. -/
abbrev ByteMem := Nat → UInt8

namespace ByteMem

variable (d : ByteMem)

/-- The block of `n` bytes at offset `off`. -/
def load (off n : Nat) : Fin n → UInt8 := fun i => d (off + i)

/-- Replace the block at offset `off` by `bs`. -/
def store (off : Nat) {n : Nat} (bs : Fin n → UInt8) : ByteMem :=
  fun j => if h : off ≤ j ∧ j < off + n then bs ⟨j - off, by omega⟩ else d j

variable {d}

theorem store_apply_of_outside {off n : Nat} {bs : Fin n → UInt8} {j : Nat}
    (h : j < off ∨ off + n ≤ j) : store d off bs j = d j := by
  have hout : ¬(off ≤ j ∧ j < off + n) := by omega
  simp only [store, dif_neg hout]

theorem store_apply_of_inside {off n : Nat} {bs : Fin n → UInt8} (i : Fin n) :
    store d off bs (off + i) = bs i := by
  have hin : off ≤ off + (i : Nat) ∧ off + (i : Nat) < off + n := ⟨by omega, by omega⟩
  simp [store, hin]

@[simp] theorem load_store_self (off : Nat) {n : Nat} (bs : Fin n → UInt8) :
    load (store d off bs) off n = bs := by
  funext i
  exact store_apply_of_inside i

theorem load_store_of_disjoint {off n off' n' : Nat} {bs : Fin n → UInt8}
    (h : off' + n' ≤ off ∨ off + n ≤ off') : load (store d off bs) off' n' = load d off' n' := by
  funext i
  have hi := i.isLt
  exact store_apply_of_outside (by omega)

@[simp] theorem store_load_self (off n : Nat) : store d off (load d off n) = d := by
  funext j
  -- inside the block the old byte comes back, outside nothing was written
  by_cases h : off ≤ j ∧ j < off + n
  · have hj : off + (j - off) = j := by omega
    simp [store, load, h, hj]
  · simp [store, h]

@[simp] theorem store_store_self (off : Nat) {n : Nat} (bs bs' : Fin n → UInt8) :
    store (store d off bs) off bs' = store d off bs' := by
  funext j
  by_cases h : off ≤ j ∧ j < off + n <;> simp [store, h]

theorem store_comm_of_disjoint {off n off' n' : Nat} (bs : Fin n → UInt8) (bs' : Fin n' → UInt8)
    (h : off' + n' ≤ off ∨ off + n ≤ off') :
    store (store d off bs) off' bs' = store (store d off' bs') off bs := by
  funext j
  -- an offset lies in at most one of the two blocks
  by_cases hj : off ≤ j ∧ j < off + n
  · have hj' : ¬(off' ≤ j ∧ j < off' + n') := by omega
    simp [store, hj, hj']
  · by_cases hj' : off' ≤ j ∧ j < off' + n' <;> simp [store, hj, hj']

/-- A block is its first part followed by the rest. -/
theorem ofFn_load_add (off m n : Nat) :
    List.ofFn (load d off (m + n)) = List.ofFn (load d off m) ++ List.ofFn (load d (off + m) n) := by
  rw [List.ofFn_add]
  congr 1
  refine congrArg List.ofFn (funext fun i => ?_)
  simp only [load, Fin.val_natAdd, Nat.add_assoc]

end ByteMem

/-! ## Machine words as little-endian blocks -/

-- the bytes of a block are named by numerals
instance neZero_one : NeZero 1 := ⟨Nat.succ_ne_zero 0⟩
instance neZero_two : NeZero 2 := ⟨Nat.succ_ne_zero 1⟩
instance neZero_four : NeZero 4 := ⟨Nat.succ_ne_zero 3⟩

/-- The two bytes of a 16-bit word, low byte first. -/
def le16 (x : UInt16) : Fin 2 → UInt8 := fun i => UInt8.ofNat (x.toNat / 256 ^ (i : Nat))

/-- The word whose low byte is the first byte of the block. -/
def ofLe16 (b : Fin 2 → UInt8) : UInt16 := UInt16.ofNat ((b 0).toNat + 256 * (b 1).toNat)

/-- The four bytes of a 32-bit word, low byte first. -/
def le32 (x : UInt32) : Fin 4 → UInt8 := fun i => UInt8.ofNat (x.toNat / 256 ^ (i : Nat))

/-- The word whose low byte is the first byte of the block. -/
def ofLe32 (b : Fin 4 → UInt8) : UInt32 :=
  UInt32.ofNat ((b 0).toNat + 256 * (b 1).toNat + 65536 * (b 2).toNat + 16777216 * (b 3).toNat)

@[simp] theorem ofLe16_le16 (x : UInt16) : ofLe16 (le16 x) = x := by
  apply UInt16.toNat.inj
  have hx := x.toNat_lt
  simp [ofLe16, le16]
  omega

@[simp] theorem le16_ofLe16 (b : Fin 2 → UInt8) : le16 (ofLe16 b) = b := by
  funext i
  apply UInt8.toNat.inj
  have h0 := (b 0).toNat_lt
  have h1 := (b 1).toNat_lt
  fin_cases i
  · simp [ofLe16, le16]
  · simp [ofLe16, le16]
    omega

@[simp] theorem ofLe32_le32 (x : UInt32) : ofLe32 (le32 x) = x := by
  apply UInt32.toNat.inj
  have hx := x.toNat_lt
  simp [ofLe32, le32]
  omega

@[simp] theorem le32_ofLe32 (b : Fin 4 → UInt8) : le32 (ofLe32 b) = b := by
  funext i
  apply UInt8.toNat.inj
  have h0 := (b 0).toNat_lt
  have h1 := (b 1).toNat_lt
  have h2 := (b 2).toNat_lt
  have h3 := (b 3).toNat_lt
  fin_cases i <;> simp [ofLe32, le32] <;> omega

/-- Exchange the two bytes of a 16-bit word. -/
def bswap16 (x : UInt16) : UInt16 := UInt16.ofNat (x.toNat % 256 * 256 + x.toNat / 256)

theorem bswap16_toNat (x : UInt16) : (bswap16 x).toNat = x.toNat % 256 * 256 + x.toNat / 256 := by
  have hx := x.toNat_lt
  have hlt : x.toNat % 256 * 256 + x.toNat / 256 < 65536 := by omega
  simp only [bswap16, UInt16.toNat_ofNat', Nat.mod_eq_of_lt hlt]

@[simp] theorem bswap16_bswap16 (x : UInt16) : bswap16 (bswap16 x) = x := by
  apply UInt16.toNat.inj
  have hx := x.toNat_lt
  rw [bswap16_toNat, bswap16_toNat]
  omega

/-- Reverse the four bytes of a 32-bit word. -/
def bswap32 (x : UInt32) : UInt32 :=
  UInt32.ofNat (x.toNat % 256 * 16777216 + x.toNat / 256 % 256 * 65536 +
    x.toNat / 65536 % 256 * 256 + x.toNat / 16777216)

theorem bswap32_toNat (x : UInt32) :
    (bswap32 x).toNat = x.toNat % 256 * 16777216 + x.toNat / 256 % 256 * 65536 +
      x.toNat / 65536 % 256 * 256 + x.toNat / 16777216 := by
  have hx := x.toNat_lt
  have hlt : x.toNat % 256 * 16777216 + x.toNat / 256 % 256 * 65536 +
      x.toNat / 65536 % 256 * 256 + x.toNat / 16777216 < 4294967296 := by omega
  simp only [bswap32, UInt32.toNat_ofNat', Nat.mod_eq_of_lt hlt]

end VioletGateway.Support
