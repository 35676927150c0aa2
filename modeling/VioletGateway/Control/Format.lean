import VioletGateway.Control.Shm

/-!
# The format of the shared memory

What a publish leaves in the block, byte by byte (`image`): both writers leave the same block, whatever
was in it before, and `poll_apply` reads back what was written. On an arbitrary block `poll_apply` finds
at most 64 endpoints and loads nothing outside.
-/

set_option autoImplicit false

namespace VioletGateway

open Support

namespace Shm

/-! ## Single stores -/

/-- The byte `t` of a number, low byte first. -/
def byteAt (x t : Nat) : UInt8 := UInt8.ofNat (x / 256 ^ t)

@[simp] theorem byteAt_zero (t : Nat) : byteAt 0 t = 0 := by
  rw [byteAt, Nat.zero_div]
  rfl

theorem byteAt_ofLe32 (b : Fin 4 → UInt8) {t : Nat} (ht : t < 4) :
    byteAt (ofLe32 b).toNat t = b ⟨t, ht⟩ := congrFun (le32_ofLe32 b) ⟨t, ht⟩

section Stores

variable (d : ByteMem) (off j : Nat)

theorem store8_apply (x : UInt8) :
    (store8 off x).apply d j = if off ≤ j ∧ j < off + 1 then x else d j :=
  Store.apply_eq (f := fun _ => x) (fun _ => rfl) d j

theorem store16_apply (x : UInt16) :
    (store16 off x).apply d j = if off ≤ j ∧ j < off + 2 then byteAt x.toNat (j - off) else d j :=
  Store.apply_eq (fun _ => rfl) d j

theorem store32_apply (x : UInt32) :
    (store32 off x).apply d j = if off ≤ j ∧ j < off + 4 then byteAt x.toNat (j - off) else d j :=
  Store.apply_eq (fun _ => rfl) d j

end Stores

/-! ## Slots -/

/-- The bytes of a slot. -/
def slotByte : Option UpstreamEndpoint → Nat → UInt8
  | none, _ => 0
  | some e, t => if t < 4 then byteAt e.ip.toNat t else if t < 6 then byteAt e.port.toNat (t - 4) else 0

/-- The stores write the bytes `f` to the slot `i`, and nothing else. -/
def WritesSlot (i : Nat) (ss : List Store) (f : Nat → UInt8) : Prop :=
  ∀ d j, Store.applyAll d ss j =
    if endpointOff i ≤ j ∧ j < endpointOff i + 8 then f (j - endpointOff i) else d j

theorem writesSlot_storeEndpoint (i : Nat) (e : UpstreamEndpoint) :
    WritesSlot i (storeEndpoint i e) (slotByte (some e)) := by
  intro d j
  simp only [storeEndpoint, Store.applyAll_cons, Store.applyAll_nil, store16_apply, store32_apply,
    slotByte, UInt16.toNat_zero, byteAt_zero]
  split_ifs <;> first | rfl | omega

/-- The slots from `s` on, each with its own stores. -/
theorem applyAll_slots {g : Nat → List Store} {f : Nat → Nat → UInt8}
    (hg : ∀ i, WritesSlot i (g i) (f i)) (d : ByteMem) (s m j : Nat) :
    Store.applyAll d ((List.range' s m).flatMap g) j =
      if 12 + 8 * s ≤ j ∧ j < 12 + 8 * (s + m) then f ((j - 12) / 8) ((j - 12) % 8)
      else d j := by
  induction m with
  | zero =>
      rw [if_neg (by simp)]
      rfl
  | succ m ih =>
      rw [List.range'_1_concat, List.flatMap_append, Store.applyAll_append, List.flatMap_singleton,
        hg (s + m), ih]
      rw [endpointOff]
      split_ifs with h₁ h₂ h₃ h₂ h₃ <;> first | rfl | omega | skip
      have hslot : (j - 12) / 8 = s + m := by omega
      have hbyte : (j - 12) % 8 = j - (12 + 8 * (s + m)) := by omega
      rw [hslot, hbyte]

/-! ## The published block -/

/-- The memory `d` with the configuration `u` published in it under a version. -/
def image (d : ByteMem) (version : UInt32) (u : CpUpdate) : ByteMem := fun j =>
  if j < 4 then byteAt magic.toNat j
  else if j < 8 then byteAt version.toNat (j - 4)
  else if j = 8 then policyByte u.policy
  else if j = 9 then 0
  else if j < 12 then byteAt u.endpoints.length (j - 10)
  else if j < 524 then slotByte u.endpoints[(j - 12) / 8]? ((j - 12) % 8)
  else d j

/-- The magic of the block is valid. -/
def HasMagic (d : ByteMem) : Prop := (load32 magicOff).runOn d = magic

instance (d : ByteMem) : Decidable (HasMagic d) :=
  inferInstanceAs (Decidable ((load32 magicOff).runOn d = magic))

theorem HasMagic.apply {d : ByteMem} (h : HasMagic d) {j : Nat} (hj : j < 4) :
    d j = byteAt magic.toNat j := by
  have hbytes : d.load 0 4 = le32 magic := by
    rw [← show ofLe32 (d.load 0 4) = magic from h, le32_ofLe32]
  have hbyte := congrFun hbytes ⟨j, hj⟩
  rwa [ByteMem.load, Nat.zero_add] at hbyte

/-- What `write_seed_unlocked` publishes of a seed: the block has room for 64 endpoints. -/
def written (seed : CpUpdate) : CpUpdate :=
  { seed with endpoints := seed.endpoints.take (seedCount seed).toNat }

/-- The length is narrowed to 16 bits before it is bounded. -/
theorem seedCount_toNat (seed : CpUpdate) :
    (seedCount seed).toNat = min (seed.endpoints.length % 65536) maxEp := by
  have hnarrow : (UInt16.ofNat seed.endpoints.length).toNat = seed.endpoints.length % 65536 :=
    UInt16.toNat_ofNat'
  rw [← hnarrow, seedCount]
  split_ifs with h
  · have hgt : 64 < (UInt16.ofNat seed.endpoints.length).toNat := h
    exact (Nat.min_eq_right hgt.le).symm
  · have hle : (UInt16.ofNat seed.endpoints.length).toNat ≤ 64 := UInt16.not_lt.mp h
    exact (Nat.min_eq_left hle).symm

theorem seedCount_le (seed : CpUpdate) :
    (seedCount seed).toNat ≤ maxEp ∧ (seedCount seed).toNat ≤ seed.endpoints.length := by
  rw [seedCount_toNat]
  exact ⟨Nat.min_le_right _ _, le_trans (Nat.min_le_left _ _) (Nat.mod_le _ _)⟩

theorem written_length (seed : CpUpdate) :
    (written seed).endpoints.length = (seedCount seed).toNat := by
  rw [written, List.length_take, Nat.min_eq_left (seedCount_le seed).2]

/-- Up to 64 endpoints are published as they are. -/
theorem written_of_le {seed : CpUpdate} (h : seed.endpoints.length ≤ maxEp) :
    written seed = seed := by
  have hlt : seed.endpoints.length < 65536 := lt_of_le_of_lt h (by decide)
  rw [written, seedCount_toNat, Nat.mod_eq_of_lt hlt, Nat.min_eq_left h, List.take_length]

theorem slotByte_default (t : Nat) : slotByte (some {}) t = 0 := by
  simp [slotByte]

theorem slotByte_written (seed : CpUpdate) (i t : Nat) :
    slotByte (written seed).endpoints[i]? t =
      if i < (seedCount seed).toNat then slotByte (some (seed.endpoints.getD i {})) t else 0 := by
  by_cases h : i < (seedCount seed).toNat
  · have hi : i < seed.endpoints.length := lt_of_lt_of_le h (seedCount_le seed).2
    rw [if_pos h, written, List.getElem?_take_of_lt h, List.getD_eq_getElem?_getD,
      List.getElem?_eq_getElem hi, Option.getD_some]
  · rw [if_neg h, List.getElem?_eq_none (by rw [written_length]; omega)]
    rfl

/-- The block that the gateway's writer leaves. -/
theorem applyAll_writeSeedUnlocked {d : ByteMem} (hd : HasMagic d) (seed : CpUpdate)
    (version : UInt32) :
    Store.applyAll d (writeSeedUnlocked seed version) = image d version (written seed) := by
  have hn : (seedCount seed).toNat ≤ 64 := (seedCount_le seed).1
  have hused : ∀ i, WritesSlot i (storeEndpoint i (seed.endpoints.getD i {}))
      (slotByte (some (seed.endpoints.getD i {}))) := fun i => writesSlot_storeEndpoint i _
  have hfree : ∀ i, WritesSlot i (storeEndpoint i {}) (slotByte (some {})) :=
    fun i => writesSlot_storeEndpoint i _
  funext j
  simp only [writeSeedUnlocked, seedStores, List.range_eq_range', Store.applyAll_append,
    Store.applyAll_cons, Store.applyAll_nil, versionOff, policyOff, flagsOff, countOff, maxEp]
  simp only [store32_apply, applyAll_slots hused, applyAll_slots hfree, store16_apply,
    store8_apply, slotByte_default, image, written_length, slotByte_written]
  -- the fields in the order of the layout
  by_cases hmagic : j < 4
  · simp (disch := omega) only [if_pos, if_neg]
    exact hd.apply hmagic
  by_cases hversion : j < 8
  · simp (disch := omega) only [if_pos, if_neg]
  by_cases hslots : j < 12
  · simp (disch := omega) only [if_neg]
    split_ifs <;> first | rfl | omega
  · simp (disch := omega) only [if_neg]
    split_ifs <;> first | rfl | omega

end Shm

/-! ## The block of the control tool -/

namespace Vgwcp

open Shm

theorem putBe32_apply (d : ByteMem) (off j : Nat) (x : UInt32) :
    (putBe32 off x).apply d j =
      if off ≤ j ∧ j < off + 4 then byteAt x.toNat (3 - (j - off)) else d j := by
  refine Store.apply_eq (f := fun t => byteAt x.toNat (3 - t)) (fun i => ?_) d j
  have hrev : 4 - ((i : Nat) + 1) = 3 - i := by omega
  show byteAt x.toNat (4 - (i + 1)) = byteAt x.toNat (3 - i)
  rw [hrev]

theorem beUint32_eq (ip4 : Fin 4 → UInt8) : beUint32 ip4 = ofLe32 (ip4 ∘ Fin.rev) := rfl

/-- The bytes of an address that is read and written big-endian are where they were. -/
theorem byteAt_beUint32 (ip4 : Fin 4 → UInt8) {t : Nat} (ht : t < 4) :
    byteAt (beUint32 ip4).toNat (3 - t) = byteAt (Config.ipv4From ip4).toNat t := by
  rw [beUint32_eq, Config.ipv4From, byteAt_ofLe32 _ (by omega), byteAt_ofLe32 _ ht]
  refine congrArg ip4 (Fin.ext ?_)
  simp only [Fin.val_rev]
  omega

/-- Bytes cleared one after the other. -/
theorem applyAll_clear (d : ByteMem) (off n j : Nat) :
    Store.applyAll d ((List.range n).map fun t => store8 (off + t) 0) j =
      if off ≤ j ∧ j < off + n then 0 else d j := by
  induction n with
  | zero =>
      rw [if_neg (by omega)]
      rfl
  | succ n ih =>
      rw [List.range_succ, List.map_append, Store.applyAll_append, List.map_singleton,
        Store.applyAll_cons, Store.applyAll_nil, store8_apply, ih]
      split_ifs <;> first | rfl | omega

/-- An address and a port of the command line as an endpoint of the gateway. -/
def endpointOf (up : (Fin 4 → UInt8) × UInt16) : UpstreamEndpoint :=
  ⟨Config.ipv4From up.1, up.2⟩

/-- The configuration that a command line asks for. -/
def requested (policy : BalancePolicy) (ups : List ((Fin 4 → UInt8) × UInt16)) : CpUpdate :=
  ⟨policy, ups.map endpointOf⟩

theorem parseUpstreams_length (ups : List ((Fin 4 → UInt8) × UInt16)) :
    (parseUpstreams ups).length = ups.length := List.length_map _

theorem writesSlot_storeSlot (ups : List ((Fin 4 → UInt8) × UInt16)) (i : Nat) :
    WritesSlot i (storeSlot (parseUpstreams ups) i)
      (slotByte (ups.map endpointOf)[i]?) := by
  intro d j
  rw [storeSlot, parseUpstreams, List.getElem?_map, List.getElem?_map]
  cases ups[i]? with
  | none =>
      exact applyAll_clear d (endpointOff i) 8 j
  | some up =>
      simp only [Option.map_some, Store.applyAll_cons, Store.applyAll_nil, store16_apply,
        putBe32_apply, slotByte, UInt16.toNat_zero, byteAt_zero]
      split_ifs <;> first | rfl | omega | exact byteAt_beUint32 up.1 (by omega)

/-- The block that the control tool leaves. -/
theorem applyAll_publish (d : ByteMem) (policy : BalancePolicy)
    {ups : List ((Fin 4 → UInt8) × UInt16)} (hups : ups.length ≤ maxEp) (version : UInt32) :
    Store.applyAll d
        (dataStores (policyByte policy) (parseUpstreams ups) ++ [store32 versionOff version]) =
      image d version (requested policy ups) := by
  have hlen : (UInt16.ofNat ups.length).toNat = ups.length :=
    UInt16.toNat_ofNat_of_lt' (lt_of_le_of_lt hups (by decide))
  funext j
  simp only [dataStores, List.range_eq_range', Store.applyAll_append, Store.applyAll_cons,
    Store.applyAll_nil, magicOff, versionOff, policyOff, flagsOff, countOff, maxEp]
  simp only [store32_apply, applyAll_slots (writesSlot_storeSlot ups), store16_apply,
    store8_apply, image, requested, parseUpstreams_length, List.length_map, hlen]
  by_cases hversion : j < 8
  · simp (disch := omega) only [if_neg]
    split_ifs <;> first | rfl | omega
  by_cases hslots : j < 12
  · simp (disch := omega) only [if_neg]
    split_ifs <;> first | rfl | omega
  · simp (disch := omega) only [if_neg]
    split_ifs <;> first | rfl | omega

end Vgwcp

/-! ## Reading back -/

namespace Shm

section Read

variable (d : ByteMem) (version : UInt32) (u : CpUpdate)

@[simp] theorem load_magic_image : (load32 magicOff).runOn (image d version u) = magic := by
  have hbytes : (image d version u).load 0 4 = le32 magic := by
    funext i
    have hi := i.isLt
    rw [ByteMem.load, Nat.zero_add, image, if_pos hi]
    rfl
  show ofLe32 ((image d version u).load 0 4) = magic
  rw [hbytes, ofLe32_le32]

theorem hasMagic_image : HasMagic (image d version u) := load_magic_image d version u

@[simp] theorem load_version_image : loadVersion.runOn (image d version u) = version := by
  have hbytes : (image d version u).load 4 4 = le32 version := by
    funext i
    have hi := i.isLt
    rw [ByteMem.load, image, if_neg (by omega), if_pos (by omega), Nat.add_sub_cancel_left]
    rfl
  show ofLe32 ((image d version u).load 4 4) = version
  rw [hbytes, ofLe32_le32]

theorem load_policy_image :
    (load8 policyOff).runOn (image d version u) = policyByte u.policy := rfl

variable {u} {i : Nat} {e : UpstreamEndpoint}

theorem toNat_length (hlen : u.endpoints.length ≤ maxEp) :
    (UInt16.ofNat u.endpoints.length).toNat = u.endpoints.length :=
  UInt16.toNat_ofNat_of_lt' (lt_of_le_of_lt hlen (by decide))

theorem load_count_image (hlen : u.endpoints.length ≤ maxEp) :
    (load16 countOff).runOn (image d version u) = UInt16.ofNat u.endpoints.length := by
  have hbytes : (image d version u).load 10 2 = le16 (UInt16.ofNat u.endpoints.length) := by
    funext i
    have hi := i.isLt
    rw [ByteMem.load, image, if_neg (by omega), if_neg (by omega), if_neg (by omega),
      if_neg (by omega), if_pos (by omega), Nat.add_sub_cancel_left, le16, toNat_length hlen]
    rfl
  show ofLe16 ((image d version u).load 10 2) = _
  rw [hbytes, ofLe16_le16]

theorem image_slot (hi : i < maxEp) {t : Nat} (ht : t < 8) :
    image d version u (endpointOff i + t) = slotByte u.endpoints[i]? t := by
  have hlt : i < 64 := hi
  have hslot : (12 + 8 * i + t - 12) / 8 = i := by omega
  have hbyte : (12 + 8 * i + t - 12) % 8 = t := by omega
  rw [endpointOff, image, if_neg (by omega), if_neg (by omega), if_neg (by omega),
    if_neg (by omega), if_neg (by omega), if_pos (by omega), hslot, hbyte]

theorem load_ip_image (hi : i < maxEp) (he : u.endpoints[i]? = some e) :
    (load32 (endpointOff i)).runOn (image d version u) = e.ip := by
  have hbytes : (image d version u).load (endpointOff i) 4 = le32 e.ip := by
    funext t
    have ht := t.isLt
    rw [ByteMem.load, image_slot d version hi (by omega), he, slotByte, if_pos ht]
    rfl
  show ofLe32 ((image d version u).load (endpointOff i) 4) = e.ip
  rw [hbytes, ofLe32_le32]

theorem load_port_image (hi : i < maxEp) (he : u.endpoints[i]? = some e) :
    (load16 (endpointOff i + 4)).runOn (image d version u) = e.port := by
  have hbytes : (image d version u).load (endpointOff i + 4) 2 = le16 e.port := by
    funext t
    have ht := t.isLt
    rw [ByteMem.load, Nat.add_assoc, image_slot d version hi (by omega), he, slotByte,
      if_neg (by omega), if_pos (by omega), Nat.add_sub_cancel_left]
    rfl
  show ofLe16 ((image d version u).load (endpointOff i + 4) 2) = e.port
  rw [hbytes, ofLe16_le16]

end Read

section Steps

variable (d : ByteMem) (version : UInt32) {u : CpUpdate} (hlen : u.endpoints.length ≤ maxEp)
include hlen

/-- The loop over the endpoints, with those before `rest` copied. -/
theorem steps_copyEndpoints (ver : UInt32) (policy : UInt8) {eps rest : List UpstreamEndpoint}
    (heps : eps ++ rest = u.endpoints) :
    ∃ n, Loads.Steps (image d version u) n (copyEndpoints ver policy rest.length eps)
      (recheck ver policy u.endpoints) := by
  induction rest generalizing eps with
  | nil =>
      rw [List.append_nil] at heps
      rw [← heps]
      exact ⟨0, .refl _⟩
  | cons e rest ih =>
      have he : u.endpoints[eps.length]? = some e := by
        rw [← heps, List.getElem?_append_right le_rfl, Nat.sub_self]
        rfl
      have hi : eps.length < maxEp := by
        refine lt_of_lt_of_le ?_ hlen
        rw [← heps, List.length_append, List.length_cons]
        omega
      have hnext : (eps ++ [e]) ++ rest = u.endpoints := by
        rw [List.append_assoc]
        exact heps
      obtain ⟨n, hrest⟩ := ih hnext
      have hip := Loads.steps_bind (d := image d version u) (load32 (endpointOff eps.length))
        fun ip => load16 (endpointOff eps.length + 4) >>= fun port =>
          copyEndpoints ver policy rest.length (eps ++ [⟨ip, port⟩])
      have hport := Loads.steps_bind (d := image d version u) (load16 (endpointOff eps.length + 4))
        fun port => copyEndpoints ver policy rest.length (eps ++ [⟨e.ip, port⟩])
      rw [load_ip_image d version hi he] at hip
      rw [load_port_image d version hi he] at hport
      exact ⟨_, hip.trans (hport.trans hrest)⟩

/-- The copy of the endpoints of a published configuration, up to the second load of the version. -/
theorem steps_copyCount (ver : UInt32) (policy : UInt8) :
    ∃ n, Loads.Steps (image d version u) n (copyCount ver policy)
      (recheck ver policy u.endpoints) := by
  have hcount : (if UInt16.ofNat u.endpoints.length > 64 then 64
      else UInt16.ofNat u.endpoints.length).toNat = u.endpoints.length := by
    rw [if_neg, toNat_length hlen]
    rw [gt_iff_lt, UInt16.lt_iff_toNat_lt, toNat_length hlen]
    exact Nat.not_lt.mpr hlen
  obtain ⟨n, hrest⟩ := steps_copyEndpoints d version hlen ver policy (List.nil_append u.endpoints)
  rw [← hcount, ← load_count_image d version hlen] at hrest
  have hload := Loads.steps_bind (d := image d version u) (load16 countOff) fun count =>
    copyEndpoints ver policy (if count > 64 then 64 else count).toNat []
  exact ⟨_, hload.trans hrest⟩

omit hlen in
/-- A poll that finds a version to apply, up to the load of the policy. -/
theorem steps_policy {lastApplied : UInt32} (hzero : version ≠ 0) (hnew : version ≠ lastApplied) :
    ∃ n, Loads.Steps (image d version u) n (pollApply lastApplied)
      (copyCount version (policyByte u.policy)) := by
  have hmagic := Loads.steps_bind (d := image d version u) (load32 magicOff) fun found =>
    if found ≠ magic then pure none else pollVersion lastApplied
  have hversion := Loads.steps_bind (d := image d version u) loadVersion fun ver =>
    if ver = 0 ∨ ver = lastApplied then pure none else copyConfig ver
  rw [load_magic_image, if_neg (not_not_intro rfl)] at hmagic
  rw [load_version_image, if_neg (not_or_intro hzero hnew)] at hversion
  exact ⟨_, hmagic.trans (hversion.trans (Loads.steps_bind (load8 policyOff) _))⟩

/-- A poll that finds a version to apply, up to the second load of the version. -/
theorem steps_pollApply {lastApplied : UInt32} (hzero : version ≠ 0) (hnew : version ≠ lastApplied) :
    ∃ n, Loads.Steps (image d version u) n (pollApply lastApplied)
      (recheck version (policyByte u.policy) u.endpoints) := by
  obtain ⟨n, hpolicy⟩ := steps_policy d version hzero hnew
  obtain ⟨n', hcopy⟩ := steps_copyCount d version hlen version (policyByte u.policy)
  exact ⟨_, hpolicy.trans hcopy⟩

end Steps

/-- The copy of a published configuration is this configuration. -/
theorem runOn_copyConfig (d : ByteMem) (version : UInt32) {u : CpUpdate}
    (hlen : u.endpoints.length ≤ maxEp) {ver : UInt32} :
    (copyConfig ver).runOn (image d version u) = if version = ver then some (ver, u) else none := by
  obtain ⟨n, hsteps⟩ := steps_copyCount d version hlen ver (policyByte u.policy)
  rw [copyConfig, Loads.runOn_bind, load_policy_image, hsteps.runOn_eq, recheck, Loads.runOn_bind,
    load_version_image, Loads.runOn_ite, policyOf_policyByte]
  by_cases hver : version = ver
  · rw [if_neg (not_not_intro hver), if_pos hver]
    rfl
  · rw [if_pos hver, if_neg hver]
    rfl

/-- A published configuration is found unless its version has been applied. -/
theorem runOn_pollApply (d : ByteMem) {version : UInt32} (hversion : version ≠ 0) {u : CpUpdate}
    (hlen : u.endpoints.length ≤ maxEp) (lastApplied : UInt32) :
    (pollApply lastApplied).runOn (image d version u) =
      if version = lastApplied then none else some (version, u) := by
  rw [pollApply, Loads.runOn_bind, load_magic_image, if_neg (not_not_intro rfl), pollVersion,
    Loads.runOn_bind, load_version_image, Loads.runOn_ite, runOn_copyConfig d version hlen, if_pos rfl]
  by_cases hver : version = lastApplied
  · rw [if_pos (.inr hver), if_pos hver]
    rfl
  · rw [if_neg (not_or_intro hversion hver), if_neg hver]

theorem nextVersion_ne_zero (cur : UInt32) : nextVersion cur ≠ 0 := by
  rw [nextVersion]
  split_ifs with h
  · decide
  · exact h

/-! ## An arbitrary block -/

theorem within_load8 {off : Nat} (h : off + 1 ≤ size) : (load8 off).Within size :=
  ⟨h, fun _ => trivial⟩

theorem within_load16 {off : Nat} (h : off + 2 ≤ size) : (load16 off).Within size :=
  ⟨h, fun _ => trivial⟩

theorem within_load32 {off : Nat} (h : off + 4 ≤ size) : (load32 off).Within size :=
  ⟨h, fun _ => trivial⟩

theorem within_recheck (ver : UInt32) (policy : UInt8) (eps : List UpstreamEndpoint) :
    (recheck ver policy eps).Within size := by
  apply (within_load32 (by decide)).bind
  intro v
  exact .ite (fun _ => Loads.within_pure _) fun _ => Loads.within_pure _

theorem within_copyEndpoints (ver : UInt32) (policy : UInt8) {m : Nat}
    {eps : List UpstreamEndpoint} (h : eps.length + m ≤ maxEp) :
    (copyEndpoints ver policy m eps).Within size := by
  induction m generalizing eps with
  | zero => exact within_recheck ver policy eps
  | succ m ih =>
      have hlt : eps.length + (m + 1) ≤ 64 := h
      apply (within_load32 (by simp only [endpointOff, size]; omega)).bind
      intro ip
      apply (within_load16 (by simp only [endpointOff, size]; omega)).bind
      intro port
      apply ih
      rw [List.length_append, List.length_singleton, maxEp]
      omega

theorem capped_le (count : UInt16) : (if count > 64 then 64 else count).toNat ≤ maxEp := by
  split_ifs with h
  · exact le_rfl
  · exact UInt16.le_iff_toNat_le.mp (UInt16.not_lt.mp h)

theorem within_copyConfig (ver : UInt32) : (copyConfig ver).Within size := by
  apply (within_load8 (by decide)).bind
  intro policy
  apply (within_load16 (by decide)).bind
  intro count
  exact within_copyEndpoints ver policy (by simpa using capped_le count)

/-- `poll_apply` loads nothing outside the block. -/
theorem within_pollApply (lastApplied : UInt32) : (pollApply lastApplied).Within size := by
  apply (within_load32 (by decide)).bind
  intro m
  refine .ite (fun _ => Loads.within_pure _) fun _ => ?_
  apply (within_load32 (by decide)).bind
  intro ver
  exact .ite (fun _ => Loads.within_pure _) fun _ => within_copyConfig ver

theorem length_of_copyEndpoints {d : ByteMem} {ver : UInt32} {policy : UInt8} {m : Nat}
    {eps : List UpstreamEndpoint} {found : UInt32 × CpUpdate}
    (h : (copyEndpoints ver policy m eps).runOn d = some found) :
    found.2.endpoints.length = eps.length + m := by
  induction m generalizing eps with
  | zero =>
      rw [copyEndpoints, recheck, Loads.runOn_bind, Loads.runOn_ite] at h
      by_cases hver : loadVersion.runOn d = ver
      · rw [if_neg (not_not_intro hver), Loads.runOn_pure] at h
        rw [← Option.some.inj h, Nat.add_zero]
      · rw [if_pos hver] at h
        exact nomatch h
  | succ m ih =>
      rw [copyEndpoints, Loads.runOn_bind, Loads.runOn_bind] at h
      rw [ih h, List.length_append, List.length_singleton]
      omega

/-- Whatever the block holds, `poll_apply` finds at most 64 endpoints. -/
theorem length_of_pollApply {d : ByteMem} {lastApplied : UInt32} {found : UInt32 × CpUpdate}
    (h : (pollApply lastApplied).runOn d = some found) : found.2.endpoints.length ≤ maxEp := by
  rw [pollApply, Loads.runOn_bind, Loads.runOn_ite] at h
  split_ifs at h
  · exact nomatch h
  rw [pollVersion, Loads.runOn_bind, Loads.runOn_ite] at h
  split_ifs at h
  · exact nomatch h
  rw [copyConfig, Loads.runOn_bind, copyCount, Loads.runOn_bind] at h
  rw [length_of_copyEndpoints h, List.length_nil, Nat.zero_add]
  exact capped_le _

/-! ## Both writers and the reader -/

/-- The block after the gateway's publish. -/
theorem applyAll_publish_seed {d : ByteMem} (hd : HasMagic d) (seed : CpUpdate) :
    Store.applyAll d ((publish seed).runOn d) =
      image d (nextVersion (loadVersion.runOn d)) (written seed) := by
  rw [publish, Loads.runOn_bind]
  exact applyAll_writeSeedUnlocked hd seed _

/-- The block after the publish of the control tool. -/
theorem applyAll_publish_requested (d : ByteMem) (policy : BalancePolicy)
    {ups : List ((Fin 4 → UInt8) × UInt16)} (hups : ups.length ≤ maxEp) :
    Store.applyAll d ((Vgwcp.publish (policyByte policy) (Vgwcp.parseUpstreams ups)).runOn d) =
      image d (nextVersion (loadVersion.runOn d)) (Vgwcp.requested policy ups) := by
  rw [Vgwcp.publish, Loads.runOn_bind]
  exact Vgwcp.applyAll_publish d policy hups _

/-- Go writer, C++ writer and C++ reader agree: both publishes leave the same memory, `poll_apply`
installs from it the policy and the endpoints that were asked for, and on any block at all it installs
at most 64 endpoints and loads inside the block. -/
theorem writers_and_reader_agree (policy : BalancePolicy) (ups : List ((Fin 4 → UInt8) × UInt16))
    (hups : ups.length ≤ maxEp) (d : ByteMem) (hd : HasMagic d) :
    Store.applyAll d ((Vgwcp.publish (policyByte policy) (Vgwcp.parseUpstreams ups)).runOn d) =
      Store.applyAll d ((publish (Vgwcp.requested policy ups)).runOn d) ∧
    (∀ (lastApplied : UInt32) (t : UpstreamTable), lastApplied ≠ nextVersion (loadVersion.runOn d) →
      ∃ u, (pollApply lastApplied).runOn
          (Store.applyAll d ((publish (Vgwcp.requested policy ups)).runOn d)) =
            some (nextVersion (loadVersion.runOn d), u) ∧
        (t.apply u).policy = policy ∧
        (t.apply u).nodes.map (fun e => (le32 e.ip, e.port)) = ups) ∧
    ∀ (block : ByteMem) (lastApplied : UInt32),
      (∀ a ∈ (pollApply lastApplied).accesses block, a.1 + a.2 ≤ size) ∧
      ∀ found, (pollApply lastApplied).runOn block = some found →
        found.2.endpoints.length ≤ maxEp := by
  have hlen : (Vgwcp.requested policy ups).endpoints.length ≤ maxEp := by
    rw [Vgwcp.requested, List.length_map]
    exact hups
  have hcpp := applyAll_publish_seed hd (Vgwcp.requested policy ups)
  rw [written_of_le hlen] at hcpp
  refine ⟨?_, ?_, ?_⟩
  · rw [hcpp, applyAll_publish_requested d policy hups]
  · intro lastApplied t hnew
    refine ⟨Vgwcp.requested policy ups, ?_, rfl, ?_⟩
    · rw [hcpp, runOn_pollApply d (nextVersion_ne_zero _) hlen, if_neg hnew.symm]
    · show (ups.map Vgwcp.endpointOf).map _ = ups
      rw [List.map_map]
      refine (List.map_congr_left fun up _ => ?_).trans (List.map_id ups)
      show (le32 (ofLe32 up.1), up.2) = up
      rw [le32_ofLe32]
  · intro block lastApplied
    exact ⟨(within_pollApply lastApplied).accesses block, fun found => length_of_pollApply⟩

/-- Two endpoints, published over a block of zeros that carries the magic. -/
theorem writers_and_reader_agree_two :
    ∃ u, (pollApply 0).runOn (Store.applyAll (Store.applyAll 0 [store32 magicOff magic])
        ((publish (Vgwcp.requested .rr [(![10, 0, 0, 1], 53), (![10, 0, 0, 2], 5353)])).runOn
          (Store.applyAll 0 [store32 magicOff magic]))) = some (1, u) ∧
      u.endpoints.map (fun e => (le32 e.ip, e.port)) = [(![10, 0, 0, 1], 53), (![10, 0, 0, 2], 5353)] := by
  obtain ⟨u, hfound, -, hnodes⟩ := (writers_and_reader_agree .rr
    [(![10, 0, 0, 1], 53), (![10, 0, 0, 2], 5353)] (by decide)
    (Store.applyAll 0 [store32 magicOff magic]) (by decide)).2.1 0 {} (by decide)
  exact ⟨u, hfound, hnodes⟩

end Shm

end VioletGateway
